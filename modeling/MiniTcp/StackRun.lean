import MiniTcp.Stack
import MiniTcp.Tcp.Host

/-!
# Runs of the stack

The public interface of `Stack` as one step function.  A call that waits is a run of
calls that do not, with rounds of the event loop between them; each of these is a list
of calls of the table's own interface as far as TCP is concerned.  So what holds of
every host holds of the table of every reachable stack.
-/

namespace MiniTcp

inductive StackEvent where
  | pump (p : Pump)
  | socket
  | listen (id : SocketId) (port : UInt16)
  | accept (listener : SocketId) (start : Instant) (pumps : List Pump)
  | connect (id : SocketId) (now : Instant) (iss remoteAddr : UInt32) (remotePort : UInt16)
      (pumps : List Pump)
  | send (id : SocketId) (now : Instant) (data : Bytes)
  | recv (id : SocketId) (len : ℕ) (start : Instant) (pumps : List Pump)
  | close (id : SocketId) (now : Instant) (pumps : List Pump)
  | udpSocket
  | bind (id : SocketId) (addr : UInt32) (port : UInt16)
  | sendto (id : SocketId) (data : Bytes) (dstAddr : UInt32) (dstPort : UInt16)
  | recvfrom (id : SocketId) (len : ℕ) (start : Instant) (pumps : List Pump)
  | setsockopt (id : SocketId) (opt : SockOpt)

/-- No round of the event loop belongs to the call. -/
def StackEvent.Immediate : StackEvent → Prop
  | .accept _ _ pumps | .connect _ _ _ _ _ pumps | .recv _ _ _ pumps | .close _ _ pumps
  | .recvfrom _ _ _ pumps => pumps = []
  | _ => True

namespace TcpTable

def run (t : TcpTable) (es : List TableEvent) : TcpTable := es.foldl (fun t e ↦ (t.step e).1) t

theorem run_append (t : TcpTable) (es es' : List TableEvent) :
    t.run (es ++ es') = (t.run es).run es' := List.foldl_append

end TcpTable

namespace Stack

def step (s : Stack) : StackEvent → Stack
  | .pump p => (s.pumpOnce p).1
  | .socket => s.socket.1
  | .listen id port => (s.listen id port).1
  | .accept listener start pumps => (s.accept listener start pumps).1
  | .connect id now iss remoteAddr remotePort pumps =>
      (s.connect id now iss remoteAddr remotePort pumps).1
  | .send id now data => (s.send id now data).1
  | .recv id len start pumps => (s.recv id len start pumps).1
  | .close id now pumps => (s.close id now pumps).1
  | .udpSocket => s.udpSocket.1
  | .bind id addr port => (s.bind id addr port).1
  | .sendto id data dstAddr dstPort => (s.sendto id data dstAddr dstPort).1
  | .recvfrom id len start pumps => (s.recvfrom id len start pumps).1
  | .setsockopt id opt => (s.setsockopt id opt).1

/-! ## The phases of a call -/

variable {s : Stack} {α : Type}

/-- The connection a TCP socket stands for. -/
def connKeyOf (s : Stack) (id : SocketId) : Option ConnectionKey :=
  (s.socketOf id).bind fun sock ↦ if sock.kind = .tcp then sock.connKey else none

def dialKey (s : Stack) (remoteAddr : UInt32) (remotePort : UInt16) : ConnectionKey where
  localAddr := s.selfAddr
  localPort := s.tcp.nextEphemeralPort
  remoteAddr := remoteAddr
  remotePort := remotePort

/-- `block`, where every poll is a call of its own. -/
def blockPhases (call : StackEvent) (poll : Stack → Stack × Option α)
    (expired : Instant → Bool) : List Pump → Stack → List StackEvent
  | [], _ => [call]
  | p :: pumps, s =>
      if (poll s).2.isSome || expired p.checked then [call]
      else call :: .pump p :: blockPhases call poll expired pumps ((poll s).1.pumpOnce p).1

def roundPhases (poll : Stack → Option α) : ℕ → List Pump → Stack → List StackEvent
  | 0, _, _ => []
  | _ + 1, [], _ => []
  | n + 1, p :: pumps, s =>
      match poll s with
      | some _ => []
      | none => .pump p :: roundPhases poll n pumps (s.pumpOnce p).1

/-- A call as the calls that do not wait and the rounds of the event loop it consists of. -/
def phases (s : Stack) : StackEvent → List StackEvent
  | .accept listener start pumps =>
      match s.socketOf listener with
      | none => []
      | some l =>
          if l.isListener then
            blockPhases (.accept listener start []) (acceptPoll l)
              (deadlineElapsed l.opts.rcvtimeo start) pumps s
          else []
  | .connect id now iss remoteAddr remotePort pumps =>
      match s.socketOf id with
      | none => []
      | some _ =>
          .connect id now iss remoteAddr remotePort [] ::
            roundPhases (connectPoll (s.dialKey remoteAddr remotePort)) 300 pumps
              (s.step (.connect id now iss remoteAddr remotePort []))
  | .recv id len start pumps =>
      match s.socketOf id with
      | none => []
      | some sock =>
          match sock.connKey with
          | none => []
          | some key =>
              blockPhases (.recv id len start []) (recvPoll key len)
                (deadlineElapsed sock.opts.rcvtimeo start) pumps s
  | .close id now pumps =>
      .close id now [] ::
        match s.connKeyOf id with
        | none => []
        | some key => roundPhases (closePoll key) 50 pumps (s.step (.close id now []))
  | .recvfrom id len start pumps =>
      match s.socketOf id with
      | none => []
      | some sock =>
          if sock.kind = .udp then
            blockPhases (.recvfrom id len start []) (recvfromPoll sock.udpKey len)
              (deadlineElapsed sock.opts.rcvtimeo start) pumps s
          else []
  | e => [e]

/-- A round of the event loop leaves everything but the two tables. -/
theorem pumpOnce_frame (s : Stack) (p : Pump) :
    ∃ tcp udp, (s.pumpOnce p).1 = { s with tcp := tcp, udp := udp } := by
  unfold pumpOnce dispatchIpPacket handlePacket tick
  dsimp only
  cases p.packet with
  | none => exact ⟨_, _, rfl⟩
  | some buf =>
      dsimp only
      cases acceptedPacket buf with
      | none => exact ⟨_, _, rfl⟩
      | some packet =>
          dsimp only
          split_ifs <;> exact ⟨_, _, rfl⟩

theorem pumpOnce_sockets (s : Stack) (p : Pump) : (s.pumpOnce p).1.sockets = s.sockets := by
  obtain ⟨tcp, udp, hpump⟩ := s.pumpOnce_frame p
  rw [hpump]

theorem foldl_blockPhases {call : StackEvent} {poll : Stack → Stack × Option α}
    (expired : Instant → Bool) (r : α) (pumps : List Pump)
    (hcall : ∀ s', s'.sockets = s.sockets → s'.step call = (poll s').1)
    (hpoll : ∀ s', (poll s').2 = none → (poll s').1.sockets = s'.sockets) :
    (blockPhases call poll expired pumps s).foldl step s =
      (block poll (fun now ↦ if expired now then some r else none) pumps s).1 := by
  induction pumps generalizing s with
  | nil => exact hcall s rfl
  | cons p pumps ih =>
      have hs := hcall s rfl
      have hsockets := hpoll s
      unfold blockPhases block
      rcases hp : poll s with ⟨s₁, _ | r'⟩
      · rw [hp] at hs hsockets
        cases hexp : expired p.checked with
        | true => exact hs
        | false =>
            refine Eq.trans ?_ (ih fun s' hs' ↦ hcall s' ?_)
            · simp only [Option.isSome_none, Bool.or_false, Bool.false_eq_true, if_false,
                List.foldl_cons, hs]
              rfl
            · exact hs'.trans ((pumpOnce_sockets s₁ p).trans (hsockets rfl))
      · rw [hp] at hs
        exact hs

theorem rounds_nil (poll : Stack → Option α) (n : ℕ) (s : Stack) : (rounds poll n [] s).1 = s := by
  cases n with
  | zero => rfl
  | succ n =>
      unfold rounds
      cases poll s <;> rfl

theorem foldl_roundPhases (poll : Stack → Option α) (n : ℕ) (pumps : List Pump) (s : Stack) :
    (roundPhases poll n pumps s).foldl step s = (rounds poll n pumps s).1 := by
  induction n generalizing s pumps with
  | zero => rfl
  | succ n ih =>
      unfold rounds
      cases pumps with
      | nil => cases poll s <;> rfl
      | cons p pumps =>
          unfold roundPhases
          cases poll s with
          | some r => rfl
          | none => exact ih pumps _

theorem acceptPoll_sockets (l : Socket) (h : (acceptPoll l s).2 = none) :
    (acceptPoll l s).1.sockets = s.sockets := by
  unfold acceptPoll at h ⊢
  split at h
  · rfl
  · cases h

theorem recvPoll_sockets (key : ConnectionKey) (len : ℕ) (s : Stack) :
    (recvPoll key len s).1.sockets = s.sockets := by
  unfold recvPoll
  dsimp only
  split_ifs <;> rfl

theorem recvfromPoll_sockets (udpKey : Option (UInt32 × UInt16)) (len : ℕ) (s : Stack) :
    (recvfromPoll udpKey len s).1.sockets = s.sockets := by
  unfold recvfromPoll
  split
  · rfl
  · split <;> rfl

theorem immediate_of_mem_blockPhases {call e : StackEvent} {poll : Stack → Stack × Option α}
    {expired : Instant → Bool} {pumps : List Pump} (hcall : call.Immediate)
    (h : e ∈ blockPhases call poll expired pumps s) : e.Immediate := by
  induction pumps generalizing s with
  | nil =>
      obtain rfl := List.mem_singleton.mp h
      exact hcall
  | cons p pumps ih =>
      unfold blockPhases at h
      split_ifs at h
      · obtain rfl := List.mem_singleton.mp h
        exact hcall
      · rcases List.mem_cons.mp h with rfl | h
        · exact hcall
        · rcases List.mem_cons.mp h with rfl | h
          · trivial
          · exact ih h

theorem mem_roundPhases {e : StackEvent} {poll : Stack → Option α} {n : ℕ} {pumps : List Pump}
    (h : e ∈ roundPhases poll n pumps s) : ∃ p, e = .pump p := by
  induction n generalizing s pumps with
  | zero => cases h
  | succ n ih =>
      cases pumps with
      | nil => cases h
      | cons p pumps =>
          unfold roundPhases at h
          split at h
          · cases h
          · rcases List.mem_cons.mp h with rfl | h
            · exact ⟨p, rfl⟩
            · exact ih h

theorem mem_phases_close {id : SocketId} {now : Instant} {pumps : List Pump} {e : StackEvent}
    (h : e ∈ s.phases (.close id now pumps)) : e = .close id now [] ∨ ∃ p, e = .pump p := by
  rcases List.mem_cons.mp h with rfl | h
  · exact .inl rfl
  · split at h
    · cases h
    · exact .inr (mem_roundPhases h)

theorem immediate_of_mem_phases {e e' : StackEvent} (h : e' ∈ s.phases e) : e'.Immediate := by
  cases e with
  | accept listener start pumps =>
      simp only [phases] at h
      split at h
      · cases h
      · split_ifs at h
        · refine immediate_of_mem_blockPhases ?_ h
          rfl
        · cases h
  | connect id now iss remoteAddr remotePort pumps =>
      simp only [phases] at h
      split at h
      · cases h
      · rcases List.mem_cons.mp h with rfl | h
        · rfl
        · obtain ⟨p, rfl⟩ := mem_roundPhases h
          trivial
  | recv id len start pumps =>
      simp only [phases] at h
      split at h
      · cases h
      · split at h
        · cases h
        · refine immediate_of_mem_blockPhases ?_ h
          rfl
  | close id now pumps =>
      rcases mem_phases_close h with rfl | ⟨p, rfl⟩
      · rfl
      · trivial
  | recvfrom id len start pumps =>
      simp only [phases] at h
      split at h
      · cases h
      · split_ifs at h
        · refine immediate_of_mem_blockPhases ?_ h
          rfl
        · cases h
  | _ =>
      obtain rfl := List.mem_singleton.mp h
      trivial

/-- A call does what its phases do one after another. -/
theorem step_phases (s : Stack) (e : StackEvent) : (s.phases e).foldl step s = s.step e := by
  cases e with
  | accept listener start pumps =>
      simp only [phases, step, accept]
      cases hl : s.socketOf listener with
      | none => rfl
      | some l =>
          dsimp only
          split_ifs with hlis
          · refine foldl_blockPhases _ _ pumps ?_ fun s' ↦ acceptPoll_sockets l
            intro s' hs'
            have hl' : s'.socketOf listener = some l := by rw [socketOf, hs', ← socketOf, hl]
            simp only [step, accept, hl', hlis, if_true, block]
          · rfl
  | connect id now iss remoteAddr remotePort pumps =>
      simp only [phases]
      cases hsock : s.socketOf id with
      | none => simp [step, connect, hsock]
      | some sock =>
          rw [List.foldl_cons, foldl_roundPhases]
          simp only [step, connect, hsock, rounds_nil]
          rfl
  | recv id len start pumps =>
      simp only [phases, step, recv]
      cases hsock : s.socketOf id with
      | none => rfl
      | some sock =>
          dsimp only
          cases hkey : sock.connKey with
          | none => rfl
          | some key =>
              refine foldl_blockPhases _ _ pumps ?_ fun s' _ ↦ recvPoll_sockets key len s'
              intro s' hs'
              have hsock' : s'.socketOf id = some sock := by rw [socketOf, hs', ← socketOf, hsock]
              simp only [step, recv, hsock', hkey, block]
  | close id now pumps =>
      rw [phases, List.foldl_cons]
      simp only [connKeyOf]
      cases hsock : s.socketOf id with
      | none => simp [step, close, hsock]
      | some sock =>
          cases hkind : sock.kind with
          | udp => simp [step, close, hsock, hkind]
          | tcp =>
              cases hkey : sock.connKey with
              | none => simp [step, close, hsock, hkind, hkey]
              | some key =>
                  simp only [Option.bind_some, hkind, hkey, if_true]
                  rw [foldl_roundPhases]
                  simp only [step, close, hsock, hkind, hkey, rounds_nil]
  | recvfrom id len start pumps =>
      simp only [phases, step, recvfrom]
      cases hsock : s.socketOf id with
      | none => rfl
      | some sock =>
          dsimp only
          cases hkind : sock.kind with
          | tcp => rfl
          | udp =>
              rw [if_pos rfl, if_neg (not_not.mpr rfl)]
              refine foldl_blockPhases _ _ pumps ?_ fun s' _ ↦ recvfromPoll_sockets _ len s'
              intro s' hs'
              have hsock' : s'.socketOf id = some sock := by rw [socketOf, hs', ← socketOf, hsock]
              simp [step, recvfrom, hsock', hkind, block]
  | _ => rfl

/-! ## The calls of the TCP table -/

def packetCalls (now : Instant) (iss : UInt32) (buf : Bytes) : List TableEvent :=
  match acceptedPacket buf with
  | none => []
  | some (ipHdr, payload) =>
      if ipHdr.protocol = 6 then [.segment now iss ipHdr payload] else []

def pumpCalls (p : Pump) : List TableEvent :=
  (match p.packet with
    | none => []
    | some buf => packetCalls p.received p.iss buf) ++ [.tick p.ticked]

def capCalls (key : ConnectionKey) (opts : SocketOptions) : List TableEvent :=
  (opts.rcvbuf.map fun v ↦ TableEvent.setRecvCap key v).toList ++
    (opts.sndbuf.map fun v ↦ TableEvent.setSendCap key v).toList

/-- A listening socket and the first key that waits for it. -/
def acceptable (s : Stack) (listener : SocketId) : Option (Socket × ConnectionKey) :=
  match s.socketOf listener with
  | none => none
  | some l =>
      if l.isListener then
        (s.tcp.accept l.listenAddr l.listenPort).2.map fun key ↦ (l, key)
      else none

/-- What a call that does not wait does with the TCP table. -/
def calls (s : Stack) : StackEvent → List TableEvent
  | .pump p => pumpCalls p
  | .listen id port =>
      match s.socketOf id with
      | none => []
      | some sock => [.listen s.selfAddr port sock.opts.reuseAddr]
  | .accept listener _ _ =>
      match s.acceptable listener with
      | none => []
      | some (l, key) => .accept l.listenAddr l.listenPort :: capCalls key l.opts
  | .connect id now iss remoteAddr remotePort _ =>
      match s.socketOf id with
      | none => []
      | some sock =>
          .connect now iss s.selfAddr remoteAddr remotePort ::
            capCalls (s.dialKey remoteAddr remotePort) sock.opts
  | .send id now data =>
      match (s.socketOf id).bind fun sock ↦ sock.connKey with
      | none => []
      | some key => [.send now key data]
  | .recv id len _ _ =>
      match (s.socketOf id).bind fun sock ↦ sock.connKey with
      | none => []
      | some key => [.recv key len]
  | .close id now _ =>
      match s.connKeyOf id with
      | none => []
      | some key => [.close now key]
  | .setsockopt id (.rcvBuf v) =>
      if v = 0 then []
      else
        match s.connKeyOf id with
        | none => []
        | some key => [.setRecvCap key v]
  | .setsockopt id (.sndBuf v) =>
      if v = 0 then []
      else
        match s.connKeyOf id with
        | none => []
        | some key => [.setSendCap key v]
  | .socket | .udpSocket | .bind .. | .sendto .. | .recvfrom .. | .setsockopt _ (.rcvTimeo _)
  | .setsockopt _ (.reuseAddr _) => []

theorem pumpCalls_cases (p : Pump) :
    pumpCalls p = [.tick p.ticked] ∨
      ∃ now iss ipHdr payload, pumpCalls p = [.segment now iss ipHdr payload, .tick p.ticked] := by
  unfold pumpCalls packetCalls
  split
  · exact .inl rfl
  · split
    · exact .inl rfl
    · split_ifs
      · exact .inr ⟨_, _, _, _, rfl⟩
      · exact .inl rfl

theorem mem_pumpCalls {p : Pump} {te : TableEvent} (h : te ∈ pumpCalls p) :
    (∃ now iss ipHdr payload, te = .segment now iss ipHdr payload) ∨ ∃ now, te = .tick now := by
  rcases pumpCalls_cases p with hp | ⟨now, iss, ipHdr, payload, hp⟩
  · rw [hp] at h
    exact .inr ⟨_, List.mem_singleton.mp h⟩
  · rw [hp] at h
    rcases List.mem_cons.mp h with h | h
    · exact .inl ⟨_, _, _, _, h⟩
    · exact .inr ⟨_, List.mem_singleton.mp h⟩

theorem mem_capCalls {key : ConnectionKey} {opts : SocketOptions} {te : TableEvent}
    (h : te ∈ capCalls key opts) :
    (∃ v, te = .setRecvCap key v) ∨ ∃ v, te = .setSendCap key v := by
  rcases List.mem_append.mp h with h | h
  · obtain ⟨v, -, rfl⟩ := Option.map_eq_some_iff.mp (Option.mem_toList.mp h)
    exact .inl ⟨v, rfl⟩
  · obtain ⟨v, -, rfl⟩ := Option.map_eq_some_iff.mp (Option.mem_toList.mp h)
    exact .inr ⟨v, rfl⟩

/-- The kinds of calls a call of the stack makes. -/
def makes : StackEvent → TableEvent → Prop
  | .pump _, .segment .. | .pump _, .tick _ | .listen .., .listen .. | .accept .., .accept ..
  | .accept .., .setRecvCap .. | .accept .., .setSendCap .. | .connect .., .connect ..
  | .connect .., .setRecvCap .. | .connect .., .setSendCap .. | .send .., .send ..
  | .recv .., .recv .. | .close .., .close .. | .setsockopt .., .setRecvCap ..
  | .setsockopt .., .setSendCap .. => True
  | _, _ => False

theorem makes_of_mem_calls {e : StackEvent} {te : TableEvent} (h : te ∈ s.calls e) :
    makes e te := by
  cases e with
  | pump p =>
      rcases mem_pumpCalls h with ⟨now, iss, ipHdr, payload, rfl⟩ | ⟨now, rfl⟩ <;> trivial
  | accept | connect =>
      simp only [calls] at h
      split at h
      · cases h
      · rcases List.mem_cons.mp h with rfl | h
        · trivial
        · rcases mem_capCalls h with ⟨v, rfl⟩ | ⟨v, rfl⟩ <;> trivial
  | listen | send | recv | close =>
      simp only [calls] at h
      split at h
      · cases h
      · obtain rfl := List.mem_singleton.mp h
        trivial
  | setsockopt id opt =>
      cases opt with
      | rcvBuf v | sndBuf v =>
          simp only [calls] at h
          split_ifs at h
          · cases h
          · split at h
            · cases h
            · obtain rfl := List.mem_singleton.mp h
              trivial
      | _ => cases h
  | socket | udpSocket | bind | sendto | recvfrom => cases h

theorem dispatchIpPacket_tcp (s : Stack) (now : Instant) (iss : UInt32) (buf : Bytes) :
    (s.dispatchIpPacket now iss buf).1.tcp = s.tcp.run (packetCalls now iss buf) := by
  unfold dispatchIpPacket packetCalls
  cases acceptedPacket buf with
  | none => rfl
  | some packet =>
      obtain ⟨ipHdr, payload⟩ := packet
      dsimp only
      unfold handlePacket
      by_cases htcp : ipHdr.protocol = 6
      · rw [if_pos htcp, if_neg (by rw [htcp]; decide), if_neg (by rw [htcp]; decide),
          if_pos htcp]
        rfl
      · rw [if_neg htcp]
        split_ifs <;> rfl

theorem pumpOnce_tcp (s : Stack) (p : Pump) :
    (s.pumpOnce p).1.tcp = s.tcp.run (pumpCalls p) := by
  unfold pumpOnce pumpCalls
  rw [TcpTable.run_append]
  cases p.packet with
  | none => rfl
  | some buf =>
      dsimp only
      rw [← dispatchIpPacket_tcp]
      rfl

theorem applyCaps_eq (s : Stack) (key : ConnectionKey) (opts : SocketOptions) :
    s.applyCaps key opts = { s with tcp := s.tcp.run (capCalls key opts) } := by
  unfold applyCaps capCalls
  cases opts.rcvbuf <;> cases opts.sndbuf <;> rfl

theorem acceptPoll_of_none {l : Socket} (h : (s.tcp.accept l.listenAddr l.listenPort).2 = none) :
    (acceptPoll l s).1 = s := by
  unfold acceptPoll
  split
  · rfl
  · next heq =>
      rw [heq] at h
      cases h

theorem acceptPoll_of_some {l : Socket} {key : ConnectionKey}
    (h : (s.tcp.accept l.listenAddr l.listenPort).2 = some key) :
    (acceptPoll l s).1 =
      { s with
        tcp := s.tcp.run (.accept l.listenAddr l.listenPort :: capCalls key l.opts)
        nextSocketId := s.nextSocketId + 1 }.setSocket s.nextSocketId
          { kind := .tcp, connKey := some key } := by
  unfold acceptPoll
  split
  · next heq =>
      rw [heq] at h
      cases h
  · next tcp key' heq =>
      rw [heq] at h
      obtain rfl := Option.some.inj h
      rw [applyCaps_eq]
      simp only [allocSocket, setSocket, AList.insert_insert, TcpTable.run, List.foldl_cons,
        TcpTable.step, heq]

theorem step_accept (s : Stack) (listener : SocketId) (start : Instant) :
    s.step (.accept listener start []) =
      match s.acceptable listener with
      | none => s
      | some (l, key) =>
          { s with
            tcp := s.tcp.run (.accept l.listenAddr l.listenPort :: capCalls key l.opts)
            nextSocketId := s.nextSocketId + 1 }.setSocket s.nextSocketId
              { kind := .tcp, connKey := some key } := by
  simp only [step, accept, acceptable]
  cases s.socketOf listener with
  | none => rfl
  | some l =>
      dsimp only
      split_ifs
      · cases hkey : (s.tcp.accept l.listenAddr l.listenPort).2 with
        | none => exact acceptPoll_of_none hkey
        | some key => exact acceptPoll_of_some hkey
      · rfl

theorem step_connect (s : Stack) (id : SocketId) (now : Instant) (iss remoteAddr : UInt32)
    (remotePort : UInt16) :
    s.step (.connect id now iss remoteAddr remotePort []) =
      match s.socketOf id with
      | none => s
      | some sock =>
          { s with
            tcp := s.tcp.run (.connect now iss s.selfAddr remoteAddr remotePort ::
              capCalls (s.dialKey remoteAddr remotePort) sock.opts) }.setSocket id
              { sock with connKey := some (s.dialKey remoteAddr remotePort) } := by
  simp only [step, connect]
  cases s.socketOf id with
  | none => rfl
  | some sock =>
      simp only [rounds_nil, applyCaps_eq]
      rfl

theorem tcp_accept {listener : SocketId} {l : Socket} {key : ConnectionKey}
    (h : s.acceptable listener = some (l, key)) (start : Instant) :
    (s.step (.accept listener start [])).tcp =
      (s.tcp.step (.accept l.listenAddr l.listenPort)).1.run (capCalls key l.opts) := by
  rw [step_accept, h]
  rfl

theorem tcp_connect {id : SocketId} {sock : Socket} (h : s.socketOf id = some sock)
    (now : Instant) (iss remoteAddr : UInt32) (remotePort : UInt16) :
    (s.step (.connect id now iss remoteAddr remotePort [])).tcp =
      (s.tcp.step (.connect now iss s.selfAddr remoteAddr remotePort)).1.run
        (capCalls (s.dialKey remoteAddr remotePort) sock.opts) := by
  rw [step_connect, h]
  rfl

theorem step_send (s : Stack) (id : SocketId) (now : Instant) (data : Bytes) :
    s.step (.send id now data) = { s with tcp := s.tcp.run (s.calls (.send id now data)) } := by
  simp only [step, send, calls]
  cases (s.socketOf id).bind fun sock ↦ sock.connKey <;> rfl

theorem step_recv (s : Stack) (id : SocketId) (len : ℕ) (start : Instant) :
    s.step (.recv id len start []) =
      { s with tcp := s.tcp.run (s.calls (.recv id len start [])) } := by
  simp only [step, recv, calls]
  cases s.socketOf id with
  | none => rfl
  | some sock =>
      dsimp only [Option.bind_some]
      cases sock.connKey with
      | none => rfl
      | some key =>
          simp only [block, recvPoll]
          split_ifs <;> rfl

/-- A part of every open socket. -/
def view {β : Type} (v : Socket → Option β) (s : Stack) (id : SocketId) : Option β :=
  (s.socketOf id).bind v

/-- The address an open UDP socket is bound to. -/
def udpKeyOf (s : Stack) : SocketId → Option (UInt32 × UInt16) :=
  view (fun sock ↦ if sock.kind = .udp then sock.udpKey else none) s

theorem step_close (s : Stack) (id : SocketId) (now : Instant) :
    s.step (.close id now []) =
      { s with
        sockets := AList.erase id s.sockets
        tcp := s.tcp.run (s.calls (.close id now []))
        udp := match s.udpKeyOf id with
          | none => s.udp
          | some key => s.udp.unbind key } := by
  simp only [step, close, calls, connKeyOf, udpKeyOf, view]
  cases hsock : s.socketOf id with
  | none =>
      rw [AssocMap.erase_of_lookup_eq_none hsock]
      rfl
  | some sock =>
      dsimp only [Option.bind_some]
      cases sock.kind with
      | udp => cases sock.udpKey <;> rfl
      | tcp =>
          rw [if_pos rfl]
          cases sock.connKey with
          | none => rfl
          | some key =>
              simp only [rounds_nil]
              rfl

theorem step_recvfrom (s : Stack) (id : SocketId) (len : ℕ) (start : Instant) :
    s.step (.recvfrom id len start []) =
      { s with
        udp := match s.udpKeyOf id with
          | none => s.udp
          | some key => (s.udp.recv key).1 } := by
  simp only [step, recvfrom, udpKeyOf, view]
  cases s.socketOf id with
  | none => rfl
  | some sock =>
      dsimp only [Option.bind_some]
      cases sock.kind with
      | tcp => rfl
      | udp =>
          rw [if_neg (not_not.mpr rfl), if_pos rfl]
          cases sock.udpKey with
          | none => rfl
          | some key =>
              simp only [block, recvfromPoll, UdpTable.recv]
              split
              · next heq =>
                  split at heq
                  · cases heq
                  · rfl
              · next heq =>
                  rw [heq]

/-- The TCP table of a stack only changes by calls of its own interface. -/
theorem step_tcp {e : StackEvent} (he : e.Immediate) :
    (s.step e).tcp = s.tcp.run (s.calls e) := by
  cases e with
  | pump p => exact pumpOnce_tcp s p
  | listen id port =>
      simp only [step, listen, calls]
      cases s.socketOf id <;> rfl
  | accept listener start pumps =>
      obtain rfl := he
      rw [step_accept, calls]
      cases s.acceptable listener <;> rfl
  | connect id now iss remoteAddr remotePort pumps =>
      obtain rfl := he
      rw [step_connect, calls]
      cases s.socketOf id <;> rfl
  | send id now data => rw [step_send]
  | recv id len start pumps =>
      obtain rfl := he
      rw [step_recv]
  | close id now pumps =>
      obtain rfl := he
      rw [step_close]
  | bind id addr port =>
      simp only [step, bind]
      split
      · rfl
      · split_ifs <;> rfl
  | sendto id data dstAddr dstPort =>
      simp only [step, sendto, sendtoKey]
      split
      · rfl
      · split_ifs
        · rfl
        · split <;> rfl
  | recvfrom id len start pumps =>
      obtain rfl := he
      rw [step_recvfrom]
      rfl
  | setsockopt id opt =>
      simp only [step, setsockopt]
      cases hsock : s.socketOf id with
      | none => cases opt <;> simp [calls, connKeyOf, hsock, TcpTable.run]
      | some sock =>
          cases opt with
          | rcvTimeo d => rfl
          | reuseAddr v => rfl
          | rcvBuf v =>
              simp only [calls, connKeyOf, hsock, Option.bind_some]
              by_cases hv : v = 0
              · rw [if_pos hv, if_pos hv]
                rfl
              · rw [if_neg hv, if_neg hv]
                cases sock.kind with
                | tcp => cases sock.connKey <;> rfl
                | udp => cases sock.udpKey <;> rfl
          | sndBuf v =>
              simp only [calls, connKeyOf, hsock, Option.bind_some]
              by_cases hv : v = 0
              · rw [if_pos hv, if_pos hv]
                rfl
              · rw [if_neg hv, if_neg hv]
                cases sock.kind with
                | tcp => cases sock.connKey <;> rfl
                | udp => rfl
  | socket | udpSocket => rfl

end Stack

/-- The table of a host that was reached by calls of its interface. -/
def TcpTable.Hosted (t : TcpTable) : Prop := ∃ host : Host, host.Reachable {} ∧ host.table = t

theorem TcpTable.Hosted.step {t : TcpTable} (h : t.Hosted) (e : TableEvent) :
    (t.step e).1.Hosted := by
  obtain ⟨host, hreach, rfl⟩ := h
  exact ⟨host.step e, hreach.call e, rfl⟩

theorem TcpTable.Hosted.run {t : TcpTable} (h : t.Hosted) (es : List TableEvent) :
    (t.run es).Hosted := by
  induction es generalizing t with
  | nil => exact h
  | cons e es ih => exact ih (h.step e)

theorem TcpTable.Hosted.track {t : TcpTable} {k : ConnectionKey} {c : TcpConnection}
    (h : t.Hosted) (hc : t.lookup k = some c) : ∃ tr : Track, tr.Reachable {} ∧ tr.conn = c := by
  obtain ⟨host, hreach, rfl⟩ := h
  rw [host.agree] at hc
  obtain ⟨tr, htr, rfl⟩ := Option.map_eq_some_iff.mp hc
  exact ⟨tr, hreach.track htr, rfl⟩

namespace Stack

/-! ## Runs -/

variable {s : Stack} {ok : Stack → StackEvent → Prop} {P : Stack → Prop}

def Reachable : Stack → Prop :=
  Run.Reaches (fun s ↦ ∃ selfAddr, s = new selfAddr) (fun _ (_ : StackEvent) ↦ True) step

theorem Reachable.step {s : Stack} (h : s.Reachable) (e : StackEvent) : (s.step e).Reachable :=
  .tail e h trivial

theorem reachable_new (selfAddr : UInt32) : (new selfAddr).Reachable := .start ⟨selfAddr, rfl⟩

/-- Every phase of every call meets `ok` in the state it finds. -/
def ReachableWhen (ok : Stack → StackEvent → Prop) : Stack → Prop :=
  Run.Reaches (fun s ↦ ∃ selfAddr, s = new selfAddr)
    (fun s e ↦ Run.Along ok step s (s.phases e)) step

theorem Reachable.reachableWhen (h : s.Reachable) : s.ReachableWhen fun _ _ ↦ True := by
  induction h with
  | start hnew => exact .start hnew
  | tail e _ _ ih => exact .tail e ih (.of_forall Stack.step (fun _ _ ↦ trivial) _ _)

/-- What the calls that do not wait and the rounds of the event loop preserve holds in
every reachable state. -/
theorem ReachableWhen.invariant (hnew : ∀ selfAddr, P (new selfAddr))
    (hstep : ∀ s e, e.Immediate → ok s e → P s → P (s.step e)) (h : s.ReachableWhen ok) : P s := by
  refine Run.Reaches.invariant ?_ ?_ h
  · rintro s ⟨selfAddr, rfl⟩
    exact hnew selfAddr
  · intro s e _ halong hs
    rw [← step_phases]
    refine halong.invariant ?_ hs
    intro s' e' he'
    exact hstep s' e' (immediate_of_mem_phases he')

theorem Reachable.hosted (h : s.Reachable) : s.tcp.Hosted := by
  refine h.reachableWhen.invariant (P := fun s ↦ s.tcp.Hosted) ?_ ?_
  · intro selfAddr
    exact ⟨Host.new, .start rfl, rfl⟩
  · intro s e he _ hs
    rw [step_tcp he]
    exact hs.run _

/-! A stack that listens on port 80 and has one connection being opened there. -/

def openingSyn : Bytes :=
  Packet.bytes ⟨2, 1, ⟨5000, 80, 7, 0, 0x50, tcpSyn, 1000, 0, 0⟩, []⟩

def listening : Stack :=
  (((new 1).step .socket).step (.listen 1 80)).step (.pump ⟨some openingSyn, 100, 0, 0, 0⟩)

theorem reachable_listening : listening.Reachable :=
  (((reachable_new 1).step _).step _).step _

end Stack

end MiniTcp
