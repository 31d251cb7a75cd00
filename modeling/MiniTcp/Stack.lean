import MiniTcp.Icmp
import MiniTcp.Tcp.Table
import MiniTcp.Udp

/-!
# The stack

`Stack` of `src/stack.rs`: the demultiplexer, the event loop, and the socket interface
over both.  A blocking call takes the rounds of the event loop it lives through as a
list; a list that ends before the call does leaves the stack in the middle of the call.
What the device writes is the second component of a result.
-/

namespace MiniTcp

inductive SocketKind where
  | tcp
  | udp
  deriving DecidableEq, Repr

structure SocketOptions where
  rcvtimeo : Option Duration := none
  reuseAddr : Bool := false
  rcvbuf : Option ℕ := none
  sndbuf : Option ℕ := none
  deriving DecidableEq, Repr

inductive SockOpt where
  | rcvTimeo (d : Duration)
  | reuseAddr (v : Bool)
  | rcvBuf (v : ℕ)
  | sndBuf (v : ℕ)
  deriving DecidableEq, Repr

structure Socket where
  kind : SocketKind
  connKey : Option ConnectionKey := none
  isListener : Bool := false
  listenAddr : UInt32 := 0
  listenPort : UInt16 := 0
  udpKey : Option (UInt32 × UInt16) := none
  opts : SocketOptions := {}
  deriving DecidableEq, Repr

abbrev SocketId := ℕ

structure Stack where
  selfAddr : UInt32
  nextUdpEphemeralPort : UInt16
  tcp : TcpTable
  udp : UdpTable
  sockets : AssocMap SocketId Socket
  nextSocketId : SocketId
  deriving DecidableEq

/-- The size of the buffer that `pump_once` reads a packet into. -/
def readBufferLen : ℕ := 2048

/-- One round of the event loop: the bytes that the device has put into the buffer, if any,
the random number a passive open takes, and the clock when the deadline is checked, when
the packet is handled and when the timers run. -/
structure Pump where
  packet : Option Bytes
  iss : UInt32
  checked : Instant
  received : Instant
  ticked : Instant

/-- The checks before a packet goes to a handler. -/
def acceptedPacket (buf : Bytes) : Option (IpHeader × Bytes) :=
  match parseIpHeader buf with
  | none => none
  | some ipHdr =>
      if verifyIpChecksum buf then
        let headerBytes := ipHdr.ihl.toNat * 4
        if headerBytes > buf.length then none else some (ipHdr, buf.drop headerBytes)
      else none

theorem acceptedPacket_eq_some {buf payload : Bytes} {h : IpHeader} :
    acceptedPacket buf = some (h, payload) ↔
      parseIpHeader buf = some h ∧ verifyIpChecksum buf = true ∧
        h.ihl.toNat * 4 ≤ buf.length ∧ payload = buf.drop (h.ihl.toNat * 4) := by
  unfold acceptedPacket
  cases hparse : parseIpHeader buf with
  | none => simp
  | some h₀ =>
      dsimp only
      constructor
      · intro haccept
        split_ifs at haccept with hsum hlen
        obtain ⟨rfl, rfl⟩ := Prod.mk.inj (Option.some.inj haccept)
        exact ⟨rfl, hsum, not_lt.mp hlen, rfl⟩
      · rintro ⟨hh, hsum, hlen, rfl⟩
        obtain rfl := Option.some.inj hh
        rw [if_pos hsum, if_neg (not_lt.mpr hlen)]

def timeout : ℤ := -2

def deadlineElapsed (rcvtimeo : Option Duration) (start now : Instant) : Bool :=
  match rcvtimeo with
  | some d => now - start ≥ d
  | none => false

namespace Stack

def new (selfAddr : UInt32) : Stack where
  selfAddr := selfAddr
  nextUdpEphemeralPort := 51000
  tcp := TcpTable.new
  udp := UdpTable.new
  sockets := ∅
  nextSocketId := 1

def socketOf (s : Stack) (id : SocketId) : Option Socket := s.sockets.lookup id

def setSocket (s : Stack) (id : SocketId) (sock : Socket) : Stack :=
  { s with sockets := AList.insert id sock s.sockets }

def allocSocket (s : Stack) (kind : SocketKind) : Stack × SocketId :=
  ({ s with nextSocketId := s.nextSocketId + 1 }.setSocket s.nextSocketId { kind := kind },
    s.nextSocketId)

/-! ## The event loop -/

def handlePacket (s : Stack) (now : Instant) (iss : UInt32) (ipHdr : IpHeader)
    (payload : Bytes) : Stack × List Bytes :=
  if ipHdr.protocol = 1 then (s, handleIcmp ipHdr payload)
  else if ipHdr.protocol = 17 then
    let (udp, out) := s.udp.handleDatagram ipHdr payload
    ({ s with udp := udp }, out)
  else if ipHdr.protocol = 6 then
    let (tcp, out) := s.tcp.handleSegment now iss ipHdr payload
    ({ s with tcp := tcp }, out.map fun m ↦ m.packet.bytes)
  else (s, [])

def dispatchIpPacket (s : Stack) (now : Instant) (iss : UInt32) (buf : Bytes) :
    Stack × List Bytes :=
  match acceptedPacket buf with
  | none => (s, [])
  | some (ipHdr, payload) => s.handlePacket now iss ipHdr payload

def tick (s : Stack) (now : Instant) : Stack × List Bytes :=
  let (tcp, out) := s.tcp.tick now
  ({ s with tcp := tcp }, out.map fun m ↦ m.packet.bytes)

def pumpOnce (s : Stack) (p : Pump) : Stack × List Bytes :=
  let (s₁, out) := match p.packet with
    | none => (s, [])
    | some buf => s.dispatchIpPacket p.received p.iss buf
  let (s₂, out') := s₁.tick p.ticked
  (s₂, out ++ out')

/-- `loop`: poll, check the deadline, pump.  No result means that the call still waits. -/
def block {α : Type} (poll : Stack → Stack × Option α) (expired : Instant → Option α) :
    List Pump → Stack → Stack × List Bytes × Option α
  | [], s => ((poll s).1, [], (poll s).2)
  | p :: pumps, s =>
      match poll s with
      | (s₁, some r) => (s₁, [], some r)
      | (s₁, none) =>
          match expired p.checked with
          | some r => (s₁, [], some r)
          | none =>
              let (s₂, out) := s₁.pumpOnce p
              let (s₃, out', r) := block poll expired pumps s₂
              (s₃, out ++ out', r)

/-- `for _ in 0..n`: poll, pump.  `some none` is the end of the loop. -/
def rounds {α : Type} (poll : Stack → Option α) :
    ℕ → List Pump → Stack → Stack × List Bytes × Option (Option α)
  | 0, _, s => (s, [], some none)
  | n + 1, pumps, s =>
      match poll s with
      | some r => (s, [], some (some r))
      | none =>
          match pumps with
          | [] => (s, [], none)
          | p :: pumps =>
              let (s₁, out) := s.pumpOnce p
              let (s₂, out', r) := rounds poll n pumps s₁
              (s₂, out ++ out', r)

/-! ## TCP sockets -/

def applyCaps (s : Stack) (key : ConnectionKey) (opts : SocketOptions) : Stack :=
  let tcp := match opts.rcvbuf with
    | some v => s.tcp.setRecvCap key v
    | none => s.tcp
  let tcp := match opts.sndbuf with
    | some v => tcp.setSendCap key v
    | none => tcp
  { s with tcp := tcp }

def socket (s : Stack) : Stack × SocketId := s.allocSocket .tcp

def listen (s : Stack) (id : SocketId) (port : UInt16) : Stack × Bool :=
  match s.socketOf id with
  | none => (s, false)
  | some sock =>
      -- the socket is marked as a listener even when `TcpTable::listen` fails
      let s₁ := s.setSocket id
        { sock with isListener := true, listenAddr := s.selfAddr, listenPort := port }
      let (tcp, ok) := s₁.tcp.listen s.selfAddr port sock.opts.reuseAddr
      ({ s₁ with tcp := tcp }, ok)

def acceptPoll (l : Socket) (s : Stack) : Stack × Option (Option SocketId × Bool) :=
  match s.tcp.accept l.listenAddr l.listenPort with
  | (_, none) => (s, none)
  | (tcp, some key) =>
      let s₁ := { s with tcp := tcp }.applyCaps key l.opts
      let (s₂, id) := s₁.allocSocket .tcp
      (s₂.setSocket id { kind := .tcp, connKey := some key }, some (some id, false))

def accept (s : Stack) (listener : SocketId) (start : Instant) (pumps : List Pump) :
    Stack × List Bytes × Option (Option SocketId × Bool) :=
  match s.socketOf listener with
  | none => (s, [], some (none, false))
  | some l =>
      if l.isListener then
        block (acceptPoll l)
          (fun now ↦ if deadlineElapsed l.opts.rcvtimeo start now then some (none, true) else none)
          pumps s
      else (s, [], some (none, false))

def connectPoll (key : ConnectionKey) (s : Stack) : Option Bool :=
  if s.tcp.isEstablished key then some true
  else if s.tcp.isClosed key then some false
  else none

def connect (s : Stack) (id : SocketId) (now : Instant) (iss remoteAddr : UInt32)
    (remotePort : UInt16) (pumps : List Pump) : Stack × List Bytes × Option Bool :=
  match s.socketOf id with
  | none => (s, [], some false)
  | some sock =>
      let (tcp, out, key) := s.tcp.connect now iss s.selfAddr remoteAddr remotePort
      let s₁ := { s with tcp := tcp }.setSocket id { sock with connKey := some key }
      let (s₂, out', r) := rounds (connectPoll key) 300 pumps (s₁.applyCaps key sock.opts)
      (s₂, (out.map fun m ↦ m.packet.bytes) ++ out', r.map fun r ↦ r.getD false)

def send (s : Stack) (id : SocketId) (now : Instant) (data : Bytes) : Stack × List Bytes × ℤ :=
  match (s.socketOf id).bind fun sock ↦ sock.connKey with
  | none => (s, [], -1)
  | some key =>
      let (tcp, out) := s.tcp.send now key data
      ({ s with tcp := tcp }, out.map fun m ↦ m.packet.bytes, s.tcp.sendResult key data)

def tcpRemoteClosedNoMoreData (s : Stack) (key : ConnectionKey) : Bool :=
  match s.tcp.lookup key with
  | none => true
  | some c =>
      c.state == .closeWait || c.state == .lastAck || c.state == .closed || c.state == .timeWait

def recvPoll (key : ConnectionKey) (len : ℕ) (s : Stack) : Stack × Option (ℤ × Bytes) :=
  let data := s.tcp.recvResult key len
  let s₁ := { s with tcp := s.tcp.recv key len }
  if data.length > 0 then (s₁, some (data.length, data))
  else if s₁.tcpRemoteClosedNoMoreData key then (s₁, some (0, []))
  else (s₁, none)

def recv (s : Stack) (id : SocketId) (len : ℕ) (start : Instant) (pumps : List Pump) :
    Stack × List Bytes × Option (ℤ × Bytes) :=
  match s.socketOf id with
  | none => (s, [], some (-1, []))
  | some sock =>
      match sock.connKey with
      | none => (s, [], some (-1, []))
      | some key =>
          block (recvPoll key len)
            (fun now ↦ if deadlineElapsed sock.opts.rcvtimeo start now then some (timeout, [])
              else none)
            pumps s

def closePoll (key : ConnectionKey) (s : Stack) : Option Unit :=
  if s.tcp.isClosed key then some () else none

/-- A listening socket is forgotten, its entry in the listener set is not. -/
def close (s : Stack) (id : SocketId) (now : Instant) (pumps : List Pump) :
    Stack × List Bytes :=
  match s.socketOf id with
  | none => (s, [])
  | some sock =>
      let s₁ := { s with sockets := AList.erase id s.sockets }
      match sock.kind with
      | .udp =>
          match sock.udpKey with
          | none => (s₁, [])
          | some key => ({ s₁ with udp := s₁.udp.unbind key }, [])
      | .tcp =>
          match sock.connKey with
          | none => (s₁, [])
          | some key =>
              let (tcp, out) := s₁.tcp.close now key
              let (s₂, out', _) := rounds (closePoll key) 50 pumps { s₁ with tcp := tcp }
              (s₂, (out.map fun m ↦ m.packet.bytes) ++ out')

/-! ## UDP sockets -/

def udpSocket (s : Stack) : Stack × SocketId := s.allocSocket .udp

def bind (s : Stack) (id : SocketId) (addr : UInt32) (port : UInt16) : Stack × Bool :=
  match s.socketOf id with
  | none => (s, false)
  | some sock =>
      if sock.kind ≠ .udp then (s, false)
      else
        let bindAddr := if addr = 0 then s.selfAddr else addr
        let cap := sock.opts.rcvbuf.getD defaultRecvQueueCapBytes
        let (udp, ok) := s.udp.bind bindAddr port sock.opts.reuseAddr cap
        let s₁ := { s with udp := udp }
        (if ok then s₁.setSocket id { sock with udpKey := some (bindAddr, port) } else s₁, ok)

/-- The address a datagram is sent from; an unbound socket takes an ephemeral port, and
keeps it even when that address is taken. -/
def sendtoKey (s : Stack) (id : SocketId) (sock : Socket) : Stack × (UInt32 × UInt16) :=
  match sock.udpKey with
  | some key => (s, key)
  | none =>
      let port := s.nextUdpEphemeralPort
      let cap := sock.opts.rcvbuf.getD defaultRecvQueueCapBytes
      let (udp, _) := s.udp.bind s.selfAddr port sock.opts.reuseAddr cap
      ({ s with nextUdpEphemeralPort := port + 1, udp := udp }.setSocket id
        { sock with udpKey := some (s.selfAddr, port) }, (s.selfAddr, port))

def sendto (s : Stack) (id : SocketId) (data : Bytes) (dstAddr : UInt32) (dstPort : UInt16) :
    Stack × List Bytes × ℤ :=
  match s.socketOf id with
  | none => (s, [], -1)
  | some sock =>
      if sock.kind ≠ .udp then (s, [], -1)
      else
        let (s₁, key) := s.sendtoKey id sock
        (s₁, (sendDatagram key.1 key.2 dstAddr dstPort data).toList, data.length)

def recvfromPoll (udpKey : Option (UInt32 × UInt16)) (len : ℕ) (s : Stack) :
    Stack × Option (ℤ × Bytes × Option (UInt32 × UInt16)) :=
  match udpKey with
  | none => (s, none)
  | some key =>
      match s.udp.recv key with
      | (_, none) => (s, none)
      | (udp, some dg) =>
          let n := min len dg.data.length
          ({ s with udp := udp }, some (n, dg.data.take n, some (dg.srcAddr, dg.srcPort)))

def recvfrom (s : Stack) (id : SocketId) (len : ℕ) (start : Instant) (pumps : List Pump) :
    Stack × List Bytes × Option (ℤ × Bytes × Option (UInt32 × UInt16)) :=
  match s.socketOf id with
  | none => (s, [], some (-1, [], none))
  | some sock =>
      if sock.kind ≠ .udp then (s, [], some (-1, [], none))
      else
        block (recvfromPoll sock.udpKey len)
          (fun now ↦ if deadlineElapsed sock.opts.rcvtimeo start now then some (timeout, [], none)
            else none)
          pumps s

/-! ## Options -/

def setsockopt (s : Stack) (id : SocketId) (opt : SockOpt) : Stack × Bool :=
  match s.socketOf id with
  | none => (s, false)
  | some sock =>
      match opt with
      | .rcvTimeo d =>
          (s.setSocket id { sock with opts :=
            { sock.opts with rcvtimeo := if d = 0 then none else some d } }, true)
      | .reuseAddr v =>
          (s.setSocket id { sock with opts := { sock.opts with reuseAddr := v } }, true)
      | .rcvBuf v =>
          if v = 0 then (s, false)
          else
            let s₁ := s.setSocket id { sock with opts := { sock.opts with rcvbuf := some v } }
            match sock.kind, sock.connKey, sock.udpKey with
            | .tcp, some key, _ => ({ s₁ with tcp := s₁.tcp.setRecvCap key v }, true)
            | .udp, _, some key => ({ s₁ with udp := s₁.udp.setRecvCap key v }, true)
            | _, _, _ => (s₁, true)
      | .sndBuf v =>
          if v = 0 then (s, false)
          else
            let s₁ := s.setSocket id { sock with opts := { sock.opts with sndbuf := some v } }
            match sock.kind, sock.connKey with
            | .tcp, some key => ({ s₁ with tcp := s₁.tcp.setSendCap key v }, true)
            | _, _ => (s₁, true)

/-- Also for a UDP socket the default is that of TCP. -/
def getRcvbuf (s : Stack) (id : SocketId) : ℕ :=
  ((s.socketOf id).bind fun sock ↦ sock.opts.rcvbuf).getD defaultRecvBufferCap

def getSndbuf (s : Stack) (id : SocketId) : ℕ :=
  ((s.socketOf id).bind fun sock ↦ sock.opts.sndbuf).getD defaultSendBufferCap

end Stack

end MiniTcp
