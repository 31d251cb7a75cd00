import MiniTcp.Confinement
import MiniTcp.Sockets.Device
import MiniTcp.Tcp.HalfOpen

/-!
# Programs on an internet of stacks

Every stack has an address of its own.  Programs make any calls of the socket interface
in any order, a call that waits being cut into the calls that do not; the packets that
the stacks write to their devices are read by the stack with the destination address, as
far as they fit into its buffer, or lost, repeated, delayed and reordered.  Behind the
stacks the hosts of their TCP tables form a network, so that every connection has its
history.

What a program reads from a TCP socket is a prefix of what the program at the other end
wrote.  What it reads from a UDP socket is the front of what was passed to `sendto` in one
piece, or the echo of what was sent from the address it reads at: the buffer holds every
segment, but of a datagram no more than 2020 bytes of data.
-/

namespace MiniTcp

/-! ## Lists of calls of one host -/

namespace Network

variable {ι : Type} [DecidableEq ι] {owner : UInt32 → ι} {n : Network ι} {i : ι}

def run (n : Network ι) (i : ι) (es : List TableEvent) : Network ι :=
  es.foldl (fun n e ↦ n.act i e) n

theorem table_run (n : Network ι) (i : ι) (es : List TableEvent) :
    ((n.run i es).host i).table = (n.host i).table.run es := by
  induction es generalizing n with
  | nil => rfl
  | cons e es ih =>
      refine (ih (n.act i e)).trans ?_
      rw [host_act_self]
      rfl

theorem host_run_of_ne (n : Network ι) (es : List TableEvent) {j : ι} (hj : j ≠ i) :
    (n.run i es).host j = n.host j := by
  induction es generalizing n with
  | nil => rfl
  | cons e es ih => exact (ih (n.act i e)).trans (Function.update_of_ne hj ..)

theorem sent_run (n : Network ι) (i : ι) (es : List TableEvent) :
    (n.run i es).sent = n.sent ++ (n.host i).table.outAlong es := by
  induction es generalizing n with
  | nil => exact (List.append_nil _).symm
  | cons e es ih =>
      refine (ih (n.act i e)).trans ?_
      rw [host_act_self]
      exact List.append_assoc ..

theorem born_run_le (n : Network ι) (i : ι) (es : List TableEvent) (k : ConnectionKey) :
    n.born k ≤ (n.run i es).born k := by
  induction es generalizing n with
  | nil => exact Nat.le_refl _
  | cons e es ih => exact (Nat.le_add_right _ _).trans (ih (n.act i e))

end Network

theorem TableEvent.Arrives.mono {ι : Type} {owner : UInt32 → ι} {sent sent' : List Emission}
    {i : ι} {e : TableEvent} (h : e.Arrives owner sent i) (hsub : sent <+: sent') :
    e.Arrives owner sent' i := by
  cases e with
  | segment now iss ipHdr payload =>
      obtain ⟨m, hm, hrest⟩ := h
      exact ⟨m, hsub.subset hm, hrest⟩
  | _ => exact h

theorem Network.Reached.run {ι : Type} [DecidableEq ι] {owner : UInt32 → ι} {n : Network ι}
    {i : ι} (h : n.Reached owner) {es : List TableEvent}
    (hes : ∀ e ∈ es, e.Arrives owner n.sent i) : (n.run i es).Reached owner := by
  induction es generalizing n with
  | nil => exact h
  | cons e es ih =>
      refine ih (h.act i e (hes e List.mem_cons_self)) fun e' he' ↦ ?_
      exact (hes e' (List.mem_cons_of_mem e he')).mono (List.prefix_append _ _)

/-! ## What a call accepts and returns -/

namespace TableEvent

def accepts (t : TcpTable) (k : ConnectionKey) : TableEvent → Bytes
  | .send _ key data => if key = k then data.take (t.sendResult key data) else []
  | _ => []

def returns (t : TcpTable) (k : ConnectionKey) : TableEvent → Bytes
  | .recv key len => if key = k then t.recvResult key len else []
  | _ => []

variable {t : TcpTable} {k : ConnectionKey} {e : TableEvent}

theorem accepts_of_opened {tr : Track} (h : e.opened t k = some tr) :
    e.accepts t k = [] ∧ e.returns t k = [] := by
  cases opened_cases h <;> exact ⟨rfl, rfl⟩

theorem accepts_of_none (h : t.lookup k = none) : e.accepts t k = [] ∧ e.returns t k = [] := by
  cases e with
  | send now key data =>
      refine ⟨?_, rfl⟩
      simp only [accepts]
      split_ifs with hk
      · subst hk
        simp [TcpTable.sendResult, h]
      · rfl
  | recv key len =>
      refine ⟨rfl, ?_⟩
      simp only [returns]
      split_ifs with hk
      · subst hk
        simp [TcpTable.recvResult, h]
      · rfl
  | _ => exact ⟨rfl, rfl⟩

end TableEvent

theorem TcpConnection.take_acceptedPrefix (c : TcpConnection) (data : Bytes) :
    data.take (c.acceptedPrefix data).length = c.acceptedPrefix data :=
  (List.prefix_iff_eq_take.mp (List.take_prefix _ _)).symm

theorem Track.after_accepts {t : Track} {table : TcpTable} {k : ConnectionKey}
    (h : table.lookup k = some t.conn) (e : TableEvent) :
    (t.after (e.on k)).hist.accepted = t.hist.accepted ++ e.accepts table k ∧
      (t.after (e.on k)).hist.returned = t.hist.returned ++ e.returns table k := by
  cases hon : e.on k with
  | none =>
      have hnil : e.accepts table k = [] ∧ e.returns table k = [] := by
        cases e with
        | send now key data =>
            refine ⟨if_neg fun hk ↦ ?_, rfl⟩
            simp [TableEvent.on, hk] at hon
        | recv key len =>
            refine ⟨rfl, if_neg fun hk ↦ ?_⟩
            simp [TableEvent.on, hk] at hon
        | _ => exact ⟨rfl, rfl⟩
      rw [hnil.1, hnil.2, List.append_nil, List.append_nil]
      exact ⟨rfl, rfl⟩
  | some ce =>
      change t.hist.accepted ++ (t.conn.step ce).2.accepted = _ ∧
        t.hist.returned ++ (t.conn.step ce).2.returned = _
      cases TableEvent.on_cases hon with
      | send now data =>
          rw [TableEvent.accepts, if_pos rfl, TcpTable.sendResult, h]
          exact ⟨by rw [TcpConnection.take_acceptedPrefix]; rfl, rfl⟩
      | recv len =>
          rw [TableEvent.returns, if_pos rfl, TcpTable.recvResult, h]
          exact ⟨rfl, rfl⟩
      | segment | tick | close | setRecvCap | setSendCap => exact ⟨rfl, rfl⟩

namespace Network

variable {ι : Type} [DecidableEq ι] {owner : UInt32 → ι} {n : Network ι} {i : ι}
  {e : TableEvent} {k : ConnectionKey}

theorem Kept.streams_act (h : Kept owner n) (hk : (n.act i e).born k ≤ 1) :
    ((n.act i e).party k).hist.accepted =
        (n.party k).hist.accepted ++ e.accepts (n.host i).table k ∧
      ((n.act i e).party k).hist.returned =
        (n.party k).hist.returned ++ e.returns (n.host i).table k := by
  have hsum : n.born k + (e.opened (n.host i).table k).isSome.toNat ≤ 1 := hk
  have hact : (n.act i e).life k = ((n.host i).lived e k).or (n.life k) := rfl
  cases hopen : e.opened (n.host i).table k with
  | some t =>
      rw [hopen] at hsum
      have hnone : n.life k = none := h.unborn k (by simpa using hsum)
      obtain ⟨hacc, hret⟩ := TableEvent.accepts_of_opened hopen
      rw [Host.lived_of_opened hopen, Option.some_or] at hact
      rw [party_of_life hact, party, hnone, hacc, hret]
      rcases TableEvent.opened_key hopen with ⟨now, iss, rfl⟩ | ⟨now, iss, seg, rfl⟩ <;>
        exact ⟨rfl, rfl⟩
  | none =>
      cases ht : (n.host i).tracks k with
      | none =>
          have hlook : (n.host i).table.lookup k = none := by
            rw [(n.host i).agree, ht]
            rfl
          obtain ⟨hacc, hret⟩ := TableEvent.accepts_of_none (e := e) hlook
          rw [Host.lived_of_none hopen ht, Option.none_or] at hact
          rw [party, hact, hacc, hret, List.append_nil, List.append_nil]
          exact ⟨rfl, rfl⟩
      | some t =>
          rw [Host.lived_of_track hopen ht, Option.some_or] at hact
          rw [party_of_life hact, party_of_life (h.place i k t ht).2]
          exact Track.after_accepts (Host.lookup_of_track ht) e

theorem Reached.streams_run (h : n.Reached owner) {es : List TableEvent}
    (hes : ∀ e ∈ es, e.Arrives owner n.sent i) (hk : (n.run i es).born k ≤ 1)
    (hsilent : ∀ e ∈ es, ∀ t, e.accepts t k = [] ∧ e.returns t k = []) :
    ((n.run i es).party k).hist.accepted = (n.party k).hist.accepted ∧
      ((n.run i es).party k).hist.returned = (n.party k).hist.returned := by
  induction es generalizing n with
  | nil => exact ⟨rfl, rfl⟩
  | cons e es ih =>
      have he := hes e List.mem_cons_self
      obtain ⟨hacc, hret⟩ := h.kept.streams_act (i := i) (e := e)
        ((born_run_le (n.act i e) i es k).trans hk)
      obtain ⟨hnil, hnil'⟩ := hsilent e List.mem_cons_self (n.host i).table
      rw [hnil, List.append_nil] at hacc
      rw [hnil', List.append_nil] at hret
      rw [← hacc, ← hret]
      refine ih (h.act i e he) (fun e' he' ↦ ?_) hk fun e' he' ↦
        hsilent e' (List.mem_cons_of_mem e he')
      exact (hes e' (List.mem_cons_of_mem e he')).mono (List.prefix_append _ _)

end Network

/-! ## Stacks and wires -/

/-- A call that does not wait. -/
abbrev Stack.Call := {e : StackEvent // e.Immediate}

namespace Stack

/-- The bytes that a call takes over for the connection under `k`. -/
def accepts (s : Stack) (k : ConnectionKey) : StackEvent → Bytes
  | .send id now data =>
      if (s.socketOf id).bind (fun sock ↦ sock.connKey) = some k then
        data.take (s.send id now data).2.2.toNat
      else []
  | _ => []

def returns (s : Stack) (k : ConnectionKey) : StackEvent → Bytes
  | .recv id len start pumps =>
      if (s.socketOf id).bind (fun sock ↦ sock.connKey) = some k then
        match (s.recv id len start pumps).2.2 with
        | none => []
        | some (_, data) => data
      else []
  | _ => []

end Stack

structure Internet (ι : Type) where
  stack : ι → Stack
  /-- every packet that was ever written to a device -/
  wire : List Bytes
  /-- the hosts behind the TCP tables -/
  network : Network ι
  /-- the bytes taken over by `send` -/
  written : ConnectionKey → Bytes
  /-- the bytes returned by `recv` -/
  read : ConnectionKey → Bytes
  /-- the datagrams passed to `sendto` -/
  datagrams : List Sendto
  agree : ∀ i, (network.host i).table = (stack i).tcp

namespace Internet

variable {ι : Type}

def start (addr : ι → UInt32) : Internet ι where
  stack i := .new (addr i)
  wire := []
  network := .start
  written _ := []
  read _ := []
  datagrams := []
  agree _ := rfl

section

variable [DecidableEq ι]

theorem agree_act (w : Internet ι) (i : ι) (e : Stack.Call) (j : ι) :
    ((w.network.run i ((w.stack i).calls e)).host j).table =
      (Function.update w.stack i ((w.stack i).step e) j).tcp := by
  by_cases hj : j = i
  · subst hj
    rw [Function.update_self, Network.table_run, w.agree, Stack.step_tcp e.2]
  · rw [Function.update_of_ne hj, Network.host_run_of_ne _ _ hj, w.agree]

def act (w : Internet ι) (i : ι) (e : Stack.Call) : Internet ι where
  stack := Function.update w.stack i ((w.stack i).step e)
  wire := w.wire ++ (w.stack i).output e
  network := w.network.run i ((w.stack i).calls e)
  written k := w.written k ++ (w.stack i).accepts k e
  read k := w.read k ++ (w.stack i).returns k e
  datagrams := w.datagrams ++ ((w.stack i).sends e).toList
  agree := w.agree_act i e

/-- A packet that is read was written by some stack and is addressed to this one.  What does
not fit into the buffer is cut off. -/
def Delivers (owner : UInt32 → ι) (w : Internet ι) (i : ι) : StackEvent → Prop
  | .pump p => ∀ buf, p.packet = some buf → ∃ packet ∈ w.wire,
      buf = packet.take readBufferLen ∧
        ∀ ipHdr, parseIpHeader packet = some ipHdr → owner ipHdr.dstAddr = i
  | _ => True

/-- Reached by any interleaving of the calls of all programs. -/
def Reached (owner : UInt32 → ι) : Internet ι → Prop :=
  Run.Reaches (fun w ↦ ∃ addr, w = start addr ∧ ∀ i, owner (addr i) = i)
    (fun w (p : ι × Stack.Call) ↦ w.Delivers owner p.1 p.2) fun w p ↦ w.act p.1 p.2

theorem reached_start {owner : UInt32 → ι} {addr : ι → UInt32} (h : ∀ i, owner (addr i) = i) :
    (start addr).Reached owner :=
  .start ⟨addr, rfl, h⟩

theorem Reached.act {owner : UInt32 → ι} {w : Internet ι} (h : w.Reached owner) (i : ι)
    (e : Stack.Call) (he : w.Delivers owner i e) : (w.act i e).Reached owner :=
  Run.Reaches.tail (i, e) h he

theorem stack_act_self (w : Internet ι) (i : ι) (e : Stack.Call) :
    (w.act i e).stack i = (w.stack i).step e :=
  Function.update_self ..

theorem stack_act_of_ne (w : Internet ι) (e : Stack.Call) {i j : ι} (hj : j ≠ i) :
    (w.act i e).stack j = w.stack j :=
  Function.update_of_ne hj ..

omit [DecidableEq ι] in
theorem delivers_of_wire {owner : UInt32 → ι} {w : Internet ι} {p : Pump} {idx : ℕ}
    {packet : Bytes} {ipHdr : IpHeader} (hpacket : w.wire[idx]? = some packet)
    (hparse : parseIpHeader packet = some ipHdr)
    (hp : p.packet = some (packet.take readBufferLen)) :
    w.Delivers owner (owner ipHdr.dstAddr) (.pump p) := by
  intro buf hbuf
  refine ⟨packet, List.mem_of_getElem? hpacket, Option.some.inj (hbuf.symm.trans hp), ?_⟩
  intro ipHdr' hparse'
  rw [Option.some.inj (hparse'.symm.trans hparse)]

/-- The packet with the number `idx` is read by the stack it is addressed to. -/
def deliver (owner : UInt32 → ι) (w : Internet ι) (now : Instant) (iss : UInt32) (idx : ℕ) :
    Internet ι :=
  match w.wire[idx]? with
  | none => w
  | some packet =>
      match parseIpHeader packet with
      | none => w
      | some ipHdr =>
          w.act (owner ipHdr.dstAddr)
            ⟨.pump ⟨some (packet.take readBufferLen), iss, now, now, now⟩, trivial⟩

theorem Reached.deliver {owner : UInt32 → ι} {w : Internet ι} (h : w.Reached owner)
    (now : Instant) (iss : UInt32) (idx : ℕ) : (w.deliver owner now iss idx).Reached owner := by
  unfold Internet.deliver
  split
  · exact h
  · next packet hpacket =>
      split
      · exact h
      · next ipHdr hparse => exact h.act _ _ (delivers_of_wire hpacket hparse rfl)

end

end Internet

/-! ## What is read of a packet -/

/-- A header that is there is read whole. -/
theorem parseIpHeader_take {n : ℕ} (hn : ipHeaderLen ≤ n) (buf : Bytes) :
    parseIpHeader (buf.take n) = parseIpHeader buf := by
  have hlen : (buf.take n).length < ipHeaderLen ↔ buf.length < ipHeaderLen := by
    rw [List.length_take]
    omega
  have hbyte (i : ℕ) (hi : i < 20) : (buf.take n).getD i 0 = buf.getD i 0 := by
    rw [List.getD_eq_getElem?_getD, List.getD_eq_getElem?_getD,
      List.getElem?_take_of_lt (hi.trans_le hn)]
  unfold parseIpHeader
  simp only [hlen, readIpHeader, hbyte, Nat.reduceLT]

/-- The most data of a datagram that is read. -/
def readDataLen : ℕ := readBufferLen - ipHeaderLen - udpHeaderLen

namespace Packet

variable {p : Packet}

theorem take_bytes (h : p.data.length ≤ mss) : p.bytes.take readBufferLen = p.bytes := by
  refine List.take_of_length_le ?_
  rw [bytes, List.length_append, length_segment, length_buildIpHeader]
  simp only [mss, ipHeaderLen, tcpHeaderLen, readBufferLen] at h ⊢
  omega

end Packet

namespace Sendto

variable {d : Sendto} {packet : Bytes} {ipHdr : IpHeader}

theorem packet_eq (h : d.packet = some packet) : ∃ udpLen csum,
    packet = buildIpHeader (datagramHeader d.srcAddr d.dstAddr udpLen) ++
      udpBytes d.srcPort d.dstPort udpLen csum d.data := by
  unfold Sendto.packet sendDatagram at h
  dsimp only at h
  split_ifs at h
  exact ⟨_, _, (Option.some.inj h).symm⟩

/-- What is read of a datagram is the datagram with the front of its data. -/
theorem parse (h : d.packet = some packet) (hparse : parseIpHeader packet = some ipHdr) :
    ipHdr.protocol = 17 ∧ ipHdr.srcAddr = d.srcAddr ∧ ipHdr.dstAddr = d.dstAddr ∧
      ∃ udpLen csum, (packet.take readBufferLen).drop (ipHdr.ihl.toNat * 4) =
        udpBytes d.srcPort d.dstPort udpLen csum (d.data.take readDataLen) := by
  obtain ⟨udpLen, csum, rfl⟩ := packet_eq h
  have hown := parseIpHeader_append (plain_datagramHeader d.srcAddr d.dstAddr udpLen)
    (checksum16 (ipHeaderBytes (datagramHeader d.srcAddr d.dstAddr udpLen) 0))
    (udpBytes d.srcPort d.dstPort udpLen csum d.data)
  obtain rfl := Option.some.inj (hown.symm.trans hparse)
  exact ⟨rfl, rfl, rfl, udpLen, csum, rfl⟩

end Sendto

namespace UdpTable

variable {t : UdpTable} {key : UInt32 × UInt16} {b : UdpBinding} {dg : UdpDatagram}

/-- The datagram that waits at a bound address. -/
def Waits (t : UdpTable) (key : UInt32 × UInt16) (dg : UdpDatagram) : Prop :=
  ∃ b, t.binding key = some b ∧ dg ∈ b.recvQueue

theorem waits_insert {key' : UInt32 × UInt16} (h : Waits ⟨AList.insert key' b t.binds⟩ key dg) :
    t.Waits key dg ∨ key = key' ∧ dg ∈ b.recvQueue := by
  obtain ⟨b', hb', hdg⟩ := h
  rw [binding_insert] at hb'
  split_ifs at hb' with hk
  · obtain rfl := Option.some.inj hb'
    exact .inr ⟨hk, hdg⟩
  · exact .inl ⟨b', hb', hdg⟩

theorem handleDatagram_udpBytes (t : UdpTable) (ipHdr : IpHeader)
    (srcPort dstPort udpLen csum : UInt16) (data : Bytes) :
    t.handleDatagram ipHdr (udpBytes srcPort dstPort udpLen csum data) =
      if t.isBound (ipHdr.dstAddr, dstPort) then
        (t.deliver (ipHdr.dstAddr, dstPort) ipHdr.srcAddr srcPort data, [])
      else (t, (sendDatagram ipHdr.dstAddr dstPort ipHdr.srcAddr srcPort data).toList) := by
  have hsrc := srcPortOf_udpBytes srcPort dstPort udpLen csum data
  have hdst := dstPortOf_udpBytes srcPort dstPort udpLen csum data
  rw [srcPortOf] at hsrc
  rw [dstPortOf] at hdst
  unfold handleDatagram
  rw [if_neg (by rw [length_udpBytes]; omega)]
  dsimp only
  rw [hsrc, hdst, drop_udpBytes]

theorem waits_step {e : UdpEvent} (h : (t.step e).Waits key dg) :
    t.Waits key dg ∨ ∃ ipHdr payload, e = .datagram ipHdr payload ∧
      key = (ipHdr.dstAddr, dstPortOf payload) ∧
      dg = ⟨ipHdr.srcAddr, srcPortOf payload, payload.drop udpHeaderLen⟩ := by
  cases e with
  | datagram ipHdr payload =>
      simp only [step, handleDatagram] at h
      split_ifs at h
      · exact .inl h
      · unfold deliver at h
        split at h
        · exact .inl h
        · next b hb =>
            dsimp only at h
            split_ifs at h
            · exact .inl h
            · rcases waits_insert h with hold | ⟨rfl, hdg⟩
              · exact .inl hold
              · rcases List.mem_append.mp hdg with hdg | hdg
                · exact .inl ⟨b, hb, hdg⟩
                · exact .inr ⟨ipHdr, payload, rfl, rfl, List.mem_singleton.mp hdg⟩
      · exact .inl h
  | recv key' =>
      simp only [step, recv] at h
      split at h
      · next dg' rest cap hb =>
          rcases waits_insert h with hold | ⟨rfl, hdg⟩
          · exact .inl hold
          · exact .inl ⟨_, hb, List.mem_cons_of_mem dg' hdg⟩
      · exact .inl h
  | bind addr port reuseAddr cap =>
      simp only [step, bind] at h
      split_ifs at h
      · exact .inl h
      · rcases waits_insert h with hold | ⟨-, hdg⟩
        · exact .inl hold
        · cases hdg
  | unbind key' =>
      obtain ⟨b, hb, hdg⟩ := h
      simp only [step, unbind, binding, AssocMap.lookup_erase_eq] at hb
      split_ifs at hb
      exact .inl ⟨b, hb, hdg⟩
  | setRecvCap key' cap =>
      simp only [step, setRecvCap] at h
      split at h
      · exact .inl h
      · next b hb =>
          rcases waits_insert h with hold | ⟨rfl, hdg⟩
          · exact .inl hold
          · exact .inl ⟨b, hb, hdg⟩

theorem waits_run {es : List UdpEvent} (h : (t.run es).Waits key dg) :
    t.Waits key dg ∨ ∃ ipHdr payload, UdpEvent.datagram ipHdr payload ∈ es ∧
      key = (ipHdr.dstAddr, dstPortOf payload) ∧
      dg = ⟨ipHdr.srcAddr, srcPortOf payload, payload.drop udpHeaderLen⟩ := by
  induction es generalizing t with
  | nil => exact .inl h
  | cons e es ih =>
      rcases ih h with hstep | ⟨ipHdr, payload, hmem, hdg⟩
      · rcases waits_step hstep with hold | ⟨ipHdr, payload, rfl, hdg⟩
        · exact .inl hold
        · exact .inr ⟨ipHdr, payload, List.mem_cons_self, hdg⟩
      · exact .inr ⟨ipHdr, payload, List.mem_cons_of_mem e hmem, hdg⟩

end UdpTable

namespace Internet

variable {ι : Type} {owner : UInt32 → ι} {w : Internet ι} {i : ι} {packet : Bytes}

/-- What a packet on the wire is.  An echo has the data that was read. -/
inductive Carried (sent : List Emission) (datagrams : List Sendto) (packet : Bytes) : Prop
  | segment {m : Emission} (hm : m ∈ sent) (hpacket : packet = m.packet.bytes)
  | datagram {d : Sendto} {data : Bytes} (hd : d ∈ datagrams ∨ d.echo ∈ datagrams)
      (hdata : data.take readDataLen = d.data.take readDataLen)
      (hpacket : Sendto.packet { d with data := data } = some packet)
  | icmp {ipHdr : IpHeader} (hparse : parseIpHeader packet = some ipHdr)
      (hproto : ipHdr.protocol = 1)

theorem Carried.mono {sent sent' : List Emission} {datagrams datagrams' : List Sendto}
    (h : Carried sent datagrams packet) (hsent : sent <+: sent')
    (hdatagrams : datagrams <+: datagrams') : Carried sent' datagrams' packet := by
  cases h with
  | segment hm hpacket => exact .segment (hsent.subset hm) hpacket
  | datagram hd hdata hpacket =>
      exact .datagram (hd.imp (hdatagrams.subset ·) (hdatagrams.subset ·)) hdata hpacket
  | icmp hparse hproto => exact .icmp hparse hproto

theorem Carried.tcp {sent : List Emission} {datagrams : List Sendto} {ipHdr : IpHeader}
    (h : Carried sent datagrams packet) (hparse : parseIpHeader packet = some ipHdr)
    (hproto : ipHdr.protocol = 6) : ∃ m ∈ sent, packet = m.packet.bytes := by
  cases h with
  | segment hm hpacket => exact ⟨_, hm, hpacket⟩
  | datagram hd hdata hpacket =>
      rw [(Sendto.parse hpacket hparse).1] at hproto
      exact absurd hproto (by decide)
  | icmp hparse' hproto' =>
      obtain rfl := Option.some.inj (hparse'.symm.trans hparse)
      rw [hproto'] at hproto
      exact absurd hproto (by decide)

theorem Carried.udp {sent : List Emission} {datagrams : List Sendto} {ipHdr : IpHeader}
    (h : Carried sent datagrams packet) (hparse : parseIpHeader packet = some ipHdr)
    (hproto : ipHdr.protocol = 17) :
    ∃ d udpLen csum, (d ∈ datagrams ∨ d.echo ∈ datagrams) ∧ ipHdr.srcAddr = d.srcAddr ∧
      ipHdr.dstAddr = d.dstAddr ∧ (packet.take readBufferLen).drop (ipHdr.ihl.toNat * 4) =
        udpBytes d.srcPort d.dstPort udpLen csum (d.data.take readDataLen) := by
  cases h with
  | @segment m hm hpacket =>
      have hown := parseIpHeader_append m.packet.plain_ipHeader
        (checksum16 (ipHeaderBytes m.packet.ipHeader 0)) m.packet.segment
      rw [hpacket] at hparse
      obtain rfl := Option.some.inj (hown.symm.trans hparse)
      change (6 : UInt8) = 17 at hproto
      exact absurd hproto (by decide)
  | @datagram d data hd hdata hpacket =>
      obtain ⟨-, hsrc, hdst, udpLen, csum, hpayload⟩ := Sendto.parse hpacket hparse
      dsimp only at hpayload
      rw [hdata] at hpayload
      exact ⟨d, udpLen, csum, hd, hsrc, hdst, hpayload⟩
  | icmp hparse' hproto' =>
      obtain rfl := Option.some.inj (hparse'.symm.trans hparse)
      rw [hproto'] at hproto
      exact absurd hproto (by decide)

/-- The stacks, the wires and the network behind them belong together. -/
structure Sound [DecidableEq ι] (owner : UInt32 → ι) (w : Internet ι) : Prop where
  network : w.network.Reached owner
  self : ∀ i, owner (w.stack i).selfAddr = i
  wire : ∀ packet ∈ w.wire, Carried w.network.sent w.datagrams packet
  streams : ∀ k, w.network.born k ≤ 1 → w.written k = (w.network.party k).hist.accepted ∧
    w.read k = (w.network.party k).hist.returned
  waiting : ∀ i key dg, (w.stack i).udp.Waits key dg → ∃ d, (d ∈ w.datagrams ∨
    d.echo ∈ w.datagrams) ∧ key = (d.dstAddr, d.dstPort) ∧
      dg = ⟨d.srcAddr, d.srcPort, d.data.take readDataLen⟩

section

variable [DecidableEq ι]

theorem sound_start {addr : ι → UInt32} (h : ∀ i, owner (addr i) = i) :
    Sound owner (start addr) where
  network := Network.reached_start owner
  self := h
  wire _ hbuf := (List.not_mem_nil hbuf).elim
  streams _ _ := ⟨rfl, rfl⟩
  waiting _ _ _ hdg := by
    obtain ⟨b, hb, -⟩ := hdg
    cases hb

theorem Sound.arrives (h : Sound owner w) {e : StackEvent} (hdel : w.Delivers owner i e) :
    ∀ te ∈ (w.stack i).calls e, te.Arrives owner w.network.sent i := by
  intro te hte
  have hmakes := Stack.makes_of_mem_calls hte
  cases te with
  | segment now iss ipHdr payload =>
      cases e with
      | pump p =>
          change _ ∈ Stack.pumpCalls p at hte
          unfold Stack.pumpCalls at hte
          rcases List.mem_append.mp hte with hte | hte
          · cases hp : p.packet with
            | none =>
                rw [hp] at hte
                cases hte
            | some buf =>
                rw [hp] at hte
                dsimp only [Stack.packetCalls] at hte
                cases hacc : acceptedPacket buf with
                | none =>
                    rw [hacc] at hte
                    cases hte
                | some accepted =>
                    obtain ⟨ipHdr', payload'⟩ := accepted
                    rw [hacc] at hte
                    dsimp only at hte
                    split_ifs at hte with hproto
                    · cases List.mem_singleton.mp hte
                      obtain ⟨hparse, -, -, rfl⟩ := acceptedPacket_eq_some.mp hacc
                      obtain ⟨packet, hwire, rfl, howner⟩ := hdel buf hp
                      rw [parseIpHeader_take (by decide)] at hparse
                      obtain ⟨m, hm, rfl⟩ := (h.wire packet hwire).tcp hparse hproto
                      -- a segment fits into the buffer
                      rw [Packet.take_bytes (h.network.length_data_le m hm)]
                      exact ⟨m, hm, hparse, rfl, howner _ hparse⟩
                    · cases hte
          · cases List.mem_singleton.mp hte
      | _ => cases hmakes
  | connect now iss localAddr remoteAddr remotePort =>
      cases e with
      | connect id now iss remoteAddr remotePort pumps =>
          simp only [Stack.calls] at hte
          split at hte
          · cases hte
          · rcases List.mem_cons.mp hte with heq | hcap
            · cases heq
              exact h.self i
            · rcases Stack.mem_capCalls hcap with ⟨v, heq⟩ | ⟨v, heq⟩ <;> cases heq
      | _ => cases hmakes
  | _ => trivial

theorem Sound.streams_act (h : Sound owner w) {e : Stack.Call} (hdel : w.Delivers owner i e)
    (k : ConnectionKey) (hk : (w.act i e).network.born k ≤ 1) :
    (w.act i e).written k = ((w.act i e).network.party k).hist.accepted ∧
      (w.act i e).read k = ((w.act i e).network.party k).hist.returned := by
  obtain ⟨hwritten, hread⟩ := h.streams k ((Network.born_run_le _ _ _ _).trans hk)
  have harr := h.arrives hdel
  obtain ⟨e, he⟩ := e
  change w.written k ++ (w.stack i).accepts k e =
      ((w.network.run i ((w.stack i).calls e)).party k).hist.accepted ∧
    w.read k ++ (w.stack i).returns k e =
      ((w.network.run i ((w.stack i).calls e)).party k).hist.returned
  change (w.network.run i ((w.stack i).calls e)).born k ≤ 1 at hk
  rw [hwritten, hread]
  -- a single call of the table is `send` or `recv`, or none of them is
  have hone (te : TableEvent) (hcalls : (w.stack i).calls e = [te]) :
      ((w.network.run i ((w.stack i).calls e)).party k).hist.accepted =
          (w.network.party k).hist.accepted ++ te.accepts (w.stack i).tcp k ∧
        ((w.network.run i ((w.stack i).calls e)).party k).hist.returned =
          (w.network.party k).hist.returned ++ te.returns (w.stack i).tcp k := by
    rw [hcalls] at hk ⊢
    rw [← w.agree]
    exact h.network.kept.streams_act hk
  have hnone (hsilent : ∀ te ∈ (w.stack i).calls e, ∀ t,
      te.accepts t k = [] ∧ te.returns t k = [])
      (hacc : (w.stack i).accepts k e = []) (hret : (w.stack i).returns k e = []) :
      (w.network.party k).hist.accepted ++ (w.stack i).accepts k e =
          ((w.network.run i ((w.stack i).calls e)).party k).hist.accepted ∧
        (w.network.party k).hist.returned ++ (w.stack i).returns k e =
          ((w.network.run i ((w.stack i).calls e)).party k).hist.returned := by
    obtain ⟨hsame, hsame'⟩ := h.network.streams_run harr hk hsilent
    rw [hacc, hret, List.append_nil, List.append_nil, hsame, hsame']
    exact ⟨rfl, rfl⟩
  cases e with
  | send id now data =>
      cases hkey : ((w.stack i).socketOf id).bind fun sock ↦ sock.connKey with
      | none =>
          refine hnone (fun te hte ↦ ?_) ?_ rfl
          · simp [Stack.calls, hkey] at hte
          · simp [Stack.accepts, hkey]
      | some key =>
          obtain ⟨hacc, hret⟩ := hone (.send now key data) (by simp [Stack.calls, hkey])
          rw [hacc, hret]
          simp [Stack.accepts, Stack.returns, TableEvent.accepts, TableEvent.returns, hkey,
            Stack.send]
  | recv id len start pumps =>
      obtain rfl := he
      cases hkey : ((w.stack i).socketOf id).bind fun sock ↦ sock.connKey with
      | none =>
          refine hnone (fun te hte ↦ ?_) rfl ?_
          · simp [Stack.calls, hkey] at hte
          · simp [Stack.returns, hkey]
      | some key =>
          obtain ⟨hacc, hret⟩ := hone (.recv key len) (by simp [Stack.calls, hkey])
          rw [hacc, hret]
          refine ⟨rfl, congrArg _ ?_⟩
          obtain ⟨sock, hsock, hconn⟩ := Option.bind_eq_some_iff.mp hkey
          simp only [Stack.returns, hkey, TableEvent.returns, Option.some.injEq]
          by_cases hkk : key = k
          · rw [if_pos hkk, if_pos hkk]
            simp only [Stack.recv, hsock, hconn, Stack.block, Stack.recvPoll]
            by_cases hlen : ((w.stack i).tcp.recvResult key len).length > 0
            · rw [if_pos hlen]
            · rw [if_neg hlen]
              have hnil : (w.stack i).tcp.recvResult key len = [] :=
                List.eq_nil_of_length_eq_zero (by omega)
              rw [hnil]
              split_ifs <;> rfl
          · rw [if_neg hkk, if_neg hkk]
  | _ =>
      refine hnone (fun te hte t ↦ ?_) rfl rfl
      have hmakes := Stack.makes_of_mem_calls hte
      cases te with
      | send | recv => cases hmakes
      | _ => exact ⟨rfl, rfl⟩

theorem mem_udpCalls {s : Stack} {e : StackEvent} {ipHdr : IpHeader} {payload : Bytes}
    (h : UdpEvent.datagram ipHdr payload ∈ s.udpCalls e) :
    ∃ p buf, e = .pump p ∧ p.packet = some buf ∧ parseIpHeader buf = some ipHdr ∧
      ipHdr.protocol = 17 ∧ payload = buf.drop (ipHdr.ihl.toNat * 4) := by
  cases e with
  | pump p =>
      simp only [Stack.udpCalls] at h
      cases hp : p.packet with
      | none =>
          rw [hp] at h
          cases h
      | some buf =>
          rw [hp] at h
          simp only [Stack.packetDatagrams] at h
          cases hacc : acceptedPacket buf with
          | none =>
              rw [hacc] at h
              cases h
          | some accepted =>
              obtain ⟨ipHdr', payload'⟩ := accepted
              rw [hacc] at h
              dsimp only at h
              split_ifs at h with hproto
              · cases List.mem_singleton.mp h
                obtain ⟨hparse, -, -, hpayload⟩ := acceptedPacket_eq_some.mp hacc
                exact ⟨p, buf, rfl, hp, hparse, hproto, hpayload⟩
              · cases h
  | close | recvfrom => simp [Stack.udpCalls] at h
  | bind id addr port =>
      simp only [Stack.udpCalls] at h
      split at h
      · cases h
      · split at h
        · cases h
        · simp [Stack.bindCall] at h
  | sendto id data dstAddr dstPort =>
      simp only [Stack.udpCalls] at h
      split at h
      · cases h
      · split_ifs at h
        · cases h
        · split at h
          · cases h
          · simp [Stack.bindCall] at h
  | setsockopt id opt =>
      cases opt with
      | rcvBuf v =>
          simp only [Stack.udpCalls] at h
          split_ifs at h
          · cases h
          · simp at h
      | _ => cases h
  | _ => cases h

/-- A datagram that a stack reads was sent by `sendto` or is an echo. -/
theorem Sound.datagram (h : Sound owner w) {e : StackEvent} (hdel : w.Delivers owner i e)
    {ipHdr : IpHeader} {payload : Bytes}
    (hcall : UdpEvent.datagram ipHdr payload ∈ (w.stack i).udpCalls e) :
    ∃ d udpLen csum, (d ∈ w.datagrams ∨ d.echo ∈ w.datagrams) ∧ ipHdr.srcAddr = d.srcAddr ∧
      ipHdr.dstAddr = d.dstAddr ∧
      payload = udpBytes d.srcPort d.dstPort udpLen csum (d.data.take readDataLen) := by
  obtain ⟨p, buf, rfl, hp, hparse, hproto, rfl⟩ := mem_udpCalls hcall
  obtain ⟨packet, hwire, rfl, -⟩ := hdel buf hp
  rw [parseIpHeader_take (by decide)] at hparse
  exact (h.wire packet hwire).udp hparse hproto

theorem Sound.wire_act (h : Sound owner w) {e : Stack.Call} (hdel : w.Delivers owner i e) :
    ∀ packet ∈ (w.act i e).wire,
      Carried (w.act i e).network.sent (w.act i e).datagrams packet := by
  have hsent : (w.act i e).network.sent =
      w.network.sent ++ (w.stack i).tcp.outAlong ((w.stack i).calls e) := by
    rw [← w.agree]
    exact Network.sent_run ..
  have hpre : w.network.sent <+: (w.act i e).network.sent := by
    rw [hsent]
    exact List.prefix_append _ _
  intro packet hpacket
  rcases List.mem_append.mp hpacket with hpacket | hpacket
  · exact (h.wire packet hpacket).mono hpre (List.prefix_append _ _)
  · cases Stack.outgoing_output e.2 hpacket with
    | segment hm hpacket =>
        refine .segment ?_ hpacket
        rw [hsent]
        exact List.mem_append_right _ hm
    | datagram hd hpacket =>
        exact .datagram (.inl (List.mem_append_right _ (Option.mem_toList.mpr hd))) rfl hpacket
    | @echo ipHdr payload hcall hpacket =>
        obtain ⟨d, udpLen, csum, hd, hsrc, hdst, rfl⟩ := h.datagram hdel hcall
        rw [UdpTable.handleDatagram_udpBytes] at hpacket
        split_ifs at hpacket
        · cases hpacket
        · rw [hsrc, hdst] at hpacket
          -- the echo of an echo has the addresses of the datagram again
          have hecho : d.echo ∈ (w.act i e).datagrams ∨ d.echo.echo ∈ (w.act i e).datagrams :=
            hd.symm.imp (List.mem_append_left _) (List.mem_append_left _)
          refine .datagram hecho ?_ (Option.mem_toList.mp hpacket)
          rw [List.take_take, Nat.min_self]
          rfl
    | icmp hparse hproto => exact .icmp hparse hproto

theorem Sound.waiting_act (h : Sound owner w) {e : Stack.Call} (hdel : w.Delivers owner i e)
    {j : ι} {key : UInt32 × UInt16} {dg : UdpDatagram}
    (hdg : ((w.act i e).stack j).udp.Waits key dg) :
    ∃ d, (d ∈ (w.act i e).datagrams ∨ d.echo ∈ (w.act i e).datagrams) ∧
      key = (d.dstAddr, d.dstPort) ∧
      dg = ⟨d.srcAddr, d.srcPort, d.data.take readDataLen⟩ := by
  have hold (hdg : (w.stack j).udp.Waits key dg) :
      ∃ d, (d ∈ (w.act i e).datagrams ∨ d.echo ∈ (w.act i e).datagrams) ∧
        key = (d.dstAddr, d.dstPort) ∧
        dg = ⟨d.srcAddr, d.srcPort, d.data.take readDataLen⟩ := by
    obtain ⟨d, hd, hrest⟩ := h.waiting j key dg hdg
    exact ⟨d, hd.imp (List.mem_append_left _) (List.mem_append_left _), hrest⟩
  by_cases hj : j = i
  · subst hj
    rw [stack_act_self, Stack.step_udp e.2] at hdg
    rcases UdpTable.waits_run hdg with hdg | ⟨ipHdr, payload, hcall, rfl, rfl⟩
    · exact hold hdg
    · obtain ⟨d, udpLen, csum, hd, hsrc, hdst, rfl⟩ := h.datagram hdel hcall
      refine ⟨d, hd.imp (List.mem_append_left _) (List.mem_append_left _), ?_, ?_⟩
      · rw [hdst, dstPortOf_udpBytes]
      · rw [hsrc, srcPortOf_udpBytes, drop_udpBytes]
  · rw [stack_act_of_ne w e hj] at hdg
    exact hold hdg

theorem Sound.act (h : Sound owner w) {e : Stack.Call} (hdel : w.Delivers owner i e) :
    Sound owner (w.act i e) where
  network := h.network.run (h.arrives hdel)
  self j := by
    by_cases hj : j = i
    · subst hj
      rw [stack_act_self, Stack.selfAddr_step e.2]
      exact h.self j
    · rw [stack_act_of_ne w e hj]
      exact h.self j
  wire := h.wire_act hdel
  streams := h.streams_act hdel
  waiting _ _ _ := h.waiting_act hdel

theorem Reached.sound (h : w.Reached owner) : Sound owner w := by
  refine Run.Reaches.invariant (P := Sound owner) ?_ ?_ h
  · rintro w ⟨addr, rfl, howner⟩
    exact sound_start howner
  · rintro w ⟨i, e⟩ _ hdel hw
    exact hw.act hdel

theorem Sound.fits (h : Sound owner w) {k : ConnectionKey} (ha : w.network.born k ≤ 1)
    (hb : w.network.born k.mirror ≤ 1) (hlen : (w.written k).length < 2 ^ 32 - 2)
    (hlen' : (w.written k.mirror).length < 2 ^ 32 - 2) : (w.network.link k).Fits := by
  rw [(h.streams k ha).1] at hlen
  rw [(h.streams k.mirror hb).1] at hlen'
  refine (h.network.link k ha hb).fits fun x ↦ ?_
  cases x with
  | a => exact hlen
  | b => exact hlen'

theorem Sound.read_prefix (h : Sound owner w) {k : ConnectionKey} (ha : w.network.born k ≤ 1)
    (hb : w.network.born k.mirror ≤ 1) (hfits : (w.network.link k).Fits) :
    w.read k.mirror <+: w.written k := by
  obtain ⟨hpre, -⟩ := hfits.received .a
  rw [(h.streams k ha).1, (h.streams k.mirror hb).2]
  exact (List.prefix_append _ _).trans hpre

theorem Sound.read_all (h : Sound owner w) {k : ConnectionKey} (hb : w.network.born k.mirror ≤ 1)
    (hfits : (w.network.link k).Fits) (hfin : (w.network.party k.mirror).hist.fin = true)
    (hempty : (w.network.party k.mirror).conn.recvBuffer = []) :
    w.read k.mirror = (w.network.party k).beforeFin := by
  obtain ⟨-, hall⟩ := hfits.received .a
  have hreceived : (w.network.party k.mirror).received =
      (w.network.party k.mirror).hist.returned := by
    rw [Track.received, TcpConnection.received, hempty, List.append_nil]
  rw [(h.streams k.mirror hb).2, ← hreceived]
  exact hall hfin

/-- Whatever the programs do and whatever happens to the packets: what was read from a
connection is a prefix of what was written at its other end, and all that was written
before its FIN once the FIN is consumed and nothing is left to read. -/
theorem read_prefix_written {k : ConnectionKey} (hw : w.Reached owner)
    (ha : w.network.born k ≤ 1) (hb : w.network.born k.mirror ≤ 1)
    (hlen : (w.written k).length < 2 ^ 32 - 2) (hlen' : (w.written k.mirror).length < 2 ^ 32 - 2) :
    w.read k.mirror <+: w.written k ∧
      ((w.network.party k.mirror).hist.fin = true →
        (w.network.party k.mirror).conn.recvBuffer = [] →
        w.read k.mirror = (w.network.party k).beforeFin) := by
  have hsound := Reached.sound hw
  have hfits := hsound.fits ha hb hlen hlen'
  exact ⟨hsound.read_prefix ha hb hfits, hsound.read_all hb hfits⟩

/-! Stack 0 has the address 1 and listens on port 80, stack 1 has the address 2 and has
connected there. -/

def twoOwner (addr : UInt32) : Fin 2 := if addr = 1 then 0 else 1

def twoAddr (i : Fin 2) : UInt32 := if i = 0 then 1 else 2

def accepted : Internet (Fin 2) :=
  let w₁ := (((start twoAddr).act 0 ⟨.socket, trivial⟩).act 0 ⟨.listen 1 80, trivial⟩).act 1
    ⟨.socket, trivial⟩
  let w₂ := (w₁.act 1 ⟨.connect 1 0 1000 1 80 [], rfl⟩).deliver twoOwner 0 5000 0
  ((w₂.deliver twoOwner 0 0 1).deliver twoOwner 0 0 2).act 0 ⟨.accept 1 0 [], rfl⟩

theorem reached_accepted : accepted.Reached twoOwner :=
  (((((((reached_start (by decide)).act 0 ⟨.socket, trivial⟩ trivial).act 0
    ⟨.listen 1 80, trivial⟩ trivial).act 1 ⟨.socket, trivial⟩ trivial).act 1
    ⟨.connect 1 0 1000 1 80 [], rfl⟩ trivial).deliver 0 5000 0).deliver 0 0 1 |>.deliver
    0 0 2).act 0 ⟨.accept 1 0 [], rfl⟩ trivial

theorem read_prefix_written_accepted :
    ∃ w : Internet (Fin 2), w.Reached twoOwner ∧ w.read ⟨1, 80, 2, 49152⟩ = [1, 2, 3] ∧
      w.read ⟨1, 80, 2, 49152⟩ <+: w.written ⟨2, 49152, 1, 80⟩ := by
  let w := ((accepted.act 1 ⟨.send 1 0 [1, 2, 3], trivial⟩).deliver twoOwner 0 0 3).act 0
    ⟨.recv 2 10 0 [], rfl⟩
  have hw : w.Reached twoOwner :=
    ((reached_accepted.act 1 ⟨.send 1 0 [1, 2, 3], trivial⟩ trivial).deliver 0 0 3).act 0
      ⟨.recv 2 10 0 [], rfl⟩ trivial
  obtain ⟨hpre, -⟩ := read_prefix_written (k := ⟨2, 49152, 1, 80⟩) hw (by decide +kernel)
    (by decide +kernel) (by decide +kernel) (by decide +kernel)
  exact ⟨w, hw, by decide +kernel, hpre⟩

/-- What `recvfrom` returns is the front of a datagram, as far as the buffer of the program
and the one of the device go, that was passed to `sendto` with that source and the address
of the socket as destination, or was sent the other way and came back as an echo. -/
theorem datagram_was_sent {id : SocketId} {len : ℕ} {start : Instant} {n : ℤ} {data : Bytes}
    {addr : UInt32} {port : UInt16} (hw : w.Reached owner)
    (h : ((w.stack i).recvfrom id len start []).2.2 = some (n, data, some (addr, port))) :
    ∃ d, (d ∈ w.datagrams ∨ d.echo ∈ w.datagrams) ∧
      (w.stack i).udpKeyOf id = some (d.dstAddr, d.dstPort) ∧ d.srcAddr = addr ∧
      d.srcPort = port ∧ data = d.data.take (min len readDataLen) := by
  have hsound := Reached.sound hw
  simp only [Stack.recvfrom] at h
  cases hsock : (w.stack i).socketOf id with
  | none =>
      rw [hsock] at h
      cases h
  | some sock =>
      rw [hsock] at h
      dsimp only at h
      split_ifs at h with hkind
      · cases h
      · rw [not_not] at hkind
        cases hkey : sock.udpKey with
        | none =>
            rw [hkey] at h
            cases h
        | some key =>
            have hkeyOf : (w.stack i).udpKeyOf id = some key := by
              simp [Stack.udpKeyOf, Stack.view, hsock, hkind, hkey]
            rw [hkey] at h
            simp only [Stack.block, Stack.recvfromPoll, UdpTable.recv] at h
            cases hb : (w.stack i).udp.binding key with
            | none =>
                rw [hb] at h
                cases h
            | some b =>
                obtain ⟨queue, cap⟩ := b
                cases queue with
                | nil =>
                    rw [hb] at h
                    cases h
                | cons dg rest =>
                    rw [hb] at h
                    dsimp only at h
                    simp only [Option.some.injEq, Prod.mk.injEq] at h
                    obtain ⟨-, rfl, rfl, rfl⟩ := h
                    obtain ⟨d, hd, rfl, rfl⟩ :=
                      hsound.waiting i key dg ⟨_, hb, List.mem_cons_self⟩
                    refine ⟨d, hd, hkeyOf, rfl, rfl, ?_⟩
                    refine (List.take_eq_take_iff.mpr ?_).trans List.take_take
                    omega

/-- Stack 1 sends 3000 bytes to port 53 of stack 0, where 2020 of them are read. -/
theorem datagram_was_sent_long :
    ∃ (w : Internet (Fin 2)) (data : Bytes), w.Reached twoOwner ∧
      ((w.stack 0).recvfrom 1 4000 0 []).2.2 = some (2020, data, some (2, 51000)) ∧
      ∃ d, (d ∈ w.datagrams ∨ d.echo ∈ w.datagrams) ∧ d.data.length = 3000 ∧ d.srcAddr = 2 ∧
        data = d.data.take 2020 := by
  let w := (((((start twoAddr).act 0 ⟨.udpSocket, trivial⟩).act 0 ⟨.bind 1 0 53, trivial⟩).act 1
    ⟨.udpSocket, trivial⟩).act 1 ⟨.sendto 1 (List.replicate 3000 7) 1 53, trivial⟩).deliver
    twoOwner 0 0 0
  have hw : w.Reached twoOwner :=
    (((((reached_start (by decide)).act 0 ⟨.udpSocket, trivial⟩ trivial).act 0
      ⟨.bind 1 0 53, trivial⟩ trivial).act 1 ⟨.udpSocket, trivial⟩ trivial).act 1
      ⟨.sendto 1 (List.replicate 3000 7) 1 53, trivial⟩ trivial).deliver 0 0 0
  have hread : ((w.stack 0).recvfrom 1 4000 0 []).2.2 =
      some (2020, List.replicate 2020 7, some (2, 51000)) := by
    decide +kernel
  have hlen : ∀ d ∈ w.datagrams, d.data.length = 3000 := by decide +kernel
  obtain ⟨d, hd, -, haddr, -, hdata⟩ := datagram_was_sent hw hread
  exact ⟨w, _, hw, hread, d, hd, hd.elim (hlen d) (hlen d.echo), haddr, hdata⟩

end

end Internet

end MiniTcp
