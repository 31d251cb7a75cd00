import MiniTcp.Sockets.EndOfStream
import MiniTcp.Sockets.Internet
import MiniTcp.Sockets.Ownership
import MiniTcp.Tcp.Agreement
import MiniTcp.Tcp.Handover

/-!
# The echo server

`main` of `src/bin/bench_echo_server.rs` on one stack of an internet, with any programs on the
others.  The calls that wait are cut into calls that do not, with rounds of the event loop
between them, as everywhere in the internet.

The server sends back what it reads from a connection, in order and without a gap.  Together
with what the stacks do on both sides: a client reads back a prefix of what it has written.
-/

namespace MiniTcp

namespace Stack

variable {s : Stack} {id : SocketId} {key : ConnectionKey}

theorem accepts_of_view (h : view (fun sock ↦ sock.connKey) s id = some key) (now : Instant)
    (data : Bytes) :
    s.accepts key (.send id now data) = data.take (s.send id now data).2.2.toNat :=
  if_pos h

theorem returns_of_view (h : view (fun sock ↦ sock.connKey) s id = some key) (len : ℕ)
    (start : Instant) :
    s.returns key (.recv id len start []) =
      match (s.recv id len start []).2.2 with
      | none => []
      | some (_, data) => data :=
  if_pos h

end Stack

/-! ## The program -/

/-- Where `main` stands, by the call it makes next.  A connection that is served comes with
the number of connections that are left to serve after it. -/
inductive EchoServer where
  | socket
  | listen (listener : SocketId)
  | accept (listener : SocketId) (left : ℕ)
  | recv (listener conn : SocketId) (left : ℕ)
  | send (listener conn : SocketId) (left : ℕ) (rest : Bytes)
  | close (listener conn : SocketId) (left : ℕ)
  | closeListener (listener : SocketId)
  | exit
  deriving DecidableEq, Repr

namespace EchoServer

structure Args where
  port : UInt16 := 8080
  connections : ℕ := 1

def bufLen : ℕ := 16 * 1024

/-- The head of `for _ in 0..connections`. -/
def forConnections (listener : SocketId) : ℕ → EchoServer
  | 0 => .closeListener listener
  | left + 1 => .accept listener left

/-- The calls `main` makes.  Those that wait pump the stack; the rounds of `close` come after
its first part, when the connection is no longer served. -/
def Calls (args : Args) : EchoServer → StackEvent → Prop
  | .socket, .socket => True
  | .listen listener, .listen id port => id = listener ∧ port = args.port
  | .accept listener _, .accept id _ _ => id = listener
  | .recv _ conn _, .recv id len _ _ => id = conn ∧ len = bufLen
  | .send _ conn _ rest, .send id _ data => id = conn ∧ data = rest
  | .close _ conn _, .close id _ _ => id = conn
  | .closeListener listener, .close id _ _ => id = listener
  | .accept .., .pump _ | .recv .., .pump _ | .closeListener _, .pump _ => True
  | _, _ => False

/-- Where `main` stands after a call. -/
def next (args : Args) (s : Stack) : EchoServer → StackEvent → EchoServer
  | .socket, .socket => .listen s.socket.2
  | .listen listener, .listen _ _ =>
      if (s.listen listener args.port).2 then forConnections listener args.connections else .exit
  | .accept listener left, .accept _ start _ =>
      match (s.accept listener start []).2.2 with
      | none => .accept listener left
      | some (none, _) => forConnections listener left
      | some (some conn, _) => .recv listener conn left
  | .recv listener conn left, .recv _ _ start _ =>
      match (s.recv conn bufLen start []).2.2 with
      | none => .recv listener conn left
      | some (received, data) =>
          if received ≤ 0 then .close listener conn left else .send listener conn left data
  | .send listener conn left rest, .send _ now _ =>
      let n := (s.send conn now rest).2.2
      if n ≤ 0 then .close listener conn left
      else if rest.drop n.toNat = [] then .recv listener conn left
      else .send listener conn left (rest.drop n.toNat)
  | .close listener _ left, .close .. => forConnections listener left
  | .closeListener _, .close .. => .exit
  | server, _ => server

/-- The socket of the connection that is served. -/
def conn : EchoServer → Option SocketId
  | .recv _ conn _ | .send _ conn _ _ | .close _ conn _ => some conn
  | _ => none

/-- What was read and still has to be sent back. -/
def owes : EchoServer → Option Bytes
  | .recv .. => some []
  | .send _ _ _ rest => some rest
  | _ => none

theorem conn_next_recv (args : Args) (s : Stack) (listener conn : SocketId) (left len : ℕ)
    (start : Instant) :
    ((EchoServer.recv listener conn left).next args s (.recv conn len start [])).conn =
      some conn := by
  simp only [next]
  split
  · rfl
  · split_ifs <;> rfl

/-- What the server owes after `recv` is what the call has returned. -/
theorem owes_next_recv (args : Args) {s : Stack} {listener conn : SocketId} {left : ℕ}
    {start : Instant} {key : ConnectionKey} {rest : Bytes}
    (hkey : s.view (fun sock ↦ sock.connKey) conn = some key)
    (h : ((EchoServer.recv listener conn left).next args s (.recv conn bufLen start [])).owes =
      some rest) :
    s.returns key (.recv conn bufLen start []) = rest := by
  rw [Stack.returns_of_view hkey]
  simp only [next] at h
  cases hres : (s.recv conn bufLen start []).2.2 with
  | none =>
      rw [hres] at h
      exact Option.some.inj h
  | some res =>
      rw [hres] at h
      dsimp only at h
      split_ifs at h
      · cases h
      · exact Option.some.inj h

theorem conn_next_send (args : Args) (s : Stack) (listener conn : SocketId) (left : ℕ)
    (rest : Bytes) (now : Instant) :
    ((EchoServer.send listener conn left rest).next args s (.send conn now rest)).conn =
      some conn := by
  simp only [next]
  split_ifs <;> rfl

/-- What `send` has not taken over is still owed. -/
theorem owes_next_send (args : Args) {s : Stack} {listener conn : SocketId} {left : ℕ}
    {now : Instant} {key : ConnectionKey} {rest rest' : Bytes}
    (hkey : s.view (fun sock ↦ sock.connKey) conn = some key)
    (h : ((EchoServer.send listener conn left rest).next args s (.send conn now rest)).owes =
      some rest') :
    s.accepts key (.send conn now rest) ++ rest' = rest := by
  rw [Stack.accepts_of_view hkey]
  simp only [next] at h
  have hsplit := List.take_append_drop (s.send conn now rest).2.2.toNat rest
  split_ifs at h with hnone hdone
  · cases h
  · rw [hdone] at hsplit
    rw [← Option.some.inj h, hsplit]
  · rw [← Option.some.inj h, hsplit]

theorem conn_forConnections (listener : SocketId) (left : ℕ) :
    (forConnections listener left).conn = none := by
  cases left <;> rfl

end EchoServer

/-- An internet with the echo server on one of its stacks. -/
structure EchoNet (ι : Type) where
  internet : Internet ι
  server : EchoServer

namespace EchoNet

variable {ι : Type} [DecidableEq ι]

def start (addr : ι → UInt32) : EchoNet ι := ⟨.start addr, .socket⟩

/-- A program makes a call; on the stack `i` it is the server. -/
def act (args : EchoServer.Args) (i : ι) (w : EchoNet ι) (p : ι × Stack.Call) : EchoNet ι where
  internet := w.internet.act p.1 p.2
  server := if p.1 = i then w.server.next args (w.internet.stack i) p.2 else w.server

def Admits (args : EchoServer.Args) (owner : UInt32 → ι) (i : ι) (w : EchoNet ι)
    (p : ι × Stack.Call) : Prop :=
  w.internet.Delivers owner p.1 p.2 ∧ (p.1 = i → w.server.Calls args p.2)

def Reached (args : EchoServer.Args) (owner : UInt32 → ι) (i : ι) : EchoNet ι → Prop :=
  Run.Reaches (fun w ↦ ∃ addr, w = start addr ∧ ∀ j, owner (addr j) = j) (Admits args owner i)
    (act args i)

/-- The packet with the number `idx` is read by the stack it is addressed to. -/
def deliver (args : EchoServer.Args) (owner : UInt32 → ι) (i : ι) (w : EchoNet ι) (idx : ℕ) :
    EchoNet ι :=
  match w.internet.wire[idx]? with
  | none => w
  | some packet =>
      match parseIpHeader packet with
      | none => w
      | some ipHdr =>
          w.act args i (owner ipHdr.dstAddr,
            ⟨.pump ⟨some (packet.take readBufferLen), 0, 0, 0, 0⟩, trivial⟩)

section

variable {args : EchoServer.Args} {owner : UInt32 → ι} {i : ι} {w : EchoNet ι}

theorem Reached.deliver (h : Reached args owner i w) (server : EchoServer)
    (hserver : w.server = server) (hcalls : ∀ p, server.Calls args (.pump p)) (idx : ℕ) :
    Reached args owner i (w.deliver args owner i idx) := by
  unfold EchoNet.deliver
  split
  · exact h
  · next packet hpacket =>
      split
      · exact h
      · next ipHdr hparse =>
          refine Run.Reaches.tail _ h ⟨Internet.delivers_of_wire hpacket hparse rfl, fun _ ↦ ?_⟩
          rw [hserver]
          exact hcalls _

theorem Reached.serve (h : Reached args owner i w) (server : EchoServer)
    (hserver : w.server = server) (e : Stack.Call) (hdel : w.internet.Delivers owner i e)
    (hcalls : server.Calls args e) : Reached args owner i (w.act args i (i, e)) :=
  Run.Reaches.tail (i, e) h ⟨hdel, fun _ ↦ by rw [hserver]; exact hcalls⟩

theorem Reached.call (h : Reached args owner i w) {j : ι} (hj : j ≠ i) (e : Stack.Call)
    (hdel : w.internet.Delivers owner j e) : Reached args owner i (w.act args i (j, e)) :=
  Run.Reaches.tail (j, e) h ⟨hdel, fun heq ↦ absurd heq hj⟩

end

end EchoNet

/-! ## Keys and their hosts -/

namespace Network

variable {ι : Type} [DecidableEq ι] {owner : UInt32 → ι} {n : Network ι} {i : ι}
  {k : ConnectionKey}

/-- The keys that wait at a host are keys of its own. -/
theorem Reached.owner_of_waiting (h : n.Reached owner) (hk : k ∈ (n.host i).table.waiting) :
    owner k.localAddr = i := by
  refine Run.Reaches.invariant (P := fun n : Network ι ↦
    ∀ i, ∀ k ∈ (n.host i).table.waiting, owner k.localAddr = i) ?_ ?_ h i k hk
  · rintro n rfl i k hk
    cases hk
  · rintro n ⟨j, e⟩ hn he ih i k hk
    by_cases hi : i = j
    · subst hi
      change k ∈ ((n.act i e).host i).table.waiting at hk
      rw [host_act_self] at hk
      rcases TcpTable.mem_waiting_of_step hk with hk | ⟨c, hc, -⟩
      · exact ih i k hk
      · rw [(n.host i).agree] at hc
        obtain ⟨t, ht, -⟩ := Option.map_eq_some_iff.mp hc
        exact (Reached.kept hn).place i k t ht |>.1
    · change k ∈ ((n.act j e).host i).table.waiting at hk
      rw [host_act_of_ne n e hi] at hk
      exact ih i k hk

theorem Reached.life_run_of_ne (h : n.Reached owner) {es : List TableEvent}
    (hes : ∀ e ∈ es, e.Arrives owner n.sent i) (hk : owner k.localAddr ≠ i) :
    (n.run i es).life k = n.life k := by
  induction es generalizing n with
  | nil => rfl
  | cons e es ih =>
      have he := hes e List.mem_cons_self
      have hrest : ∀ e' ∈ es, e'.Arrives owner (n.act i e).sent i := by
        intro e' he'
        exact (hes e' (List.mem_cons_of_mem e he')).mono (List.prefix_append _ _)
      exact (ih (h.act i e he) hrest).trans (h.kept.life_act_of_ne he hk)

theorem born_add_handshakes_le (n : Network ι) (i : ι) (es : List TableEvent)
    (k : ConnectionKey) :
    n.born k + (n.host i).table.handshakes k es ≤ (n.run i es).born k := by
  induction es generalizing n with
  | nil => exact Nat.le_refl _
  | cons e es ih =>
      have hrest := ih (n.act i e)
      rw [host_act_self] at hrest
      have hborn : (n.act i e).born k =
          n.born k + (e.opened (n.host i).table k).isSome.toNat := rfl
      have hpassive : (e.opensPassively (n.host i).table k).toNat ≤
          (e.opened (n.host i).table k).isSome.toNat := by
        unfold TableEvent.opensPassively
        cases e.opened (n.host i).table k with
        | none => exact Nat.le_refl _
        | some tr => exact Bool.toNat_le _
      change n.born k + ((e.opensPassively (n.host i).table k).toNat +
        ((n.host i).step e).table.handshakes k es) ≤ ((n.act i e).run i es).born k
      omega

end Network

namespace Internet

variable {ι : Type} [DecidableEq ι] {owner : UInt32 → ι} {w : Internet ι} {i : ι}
  {k : ConnectionKey} {e : Stack.Call}

/-- What is written and read under a key changes by the calls of its own host only. -/
theorem Sound.streams_act_of_ne (h : Sound owner w) (hdel : w.Delivers owner i e)
    (hk : owner k.localAddr ≠ i) (hborn : (w.act i e).network.born k ≤ 1) :
    (w.act i e).written k = w.written k ∧ (w.act i e).read k = w.read k := by
  have hborn₀ : w.network.born k ≤ 1 := (Network.born_run_le _ _ _ _).trans hborn
  have hlife : (w.act i e).network.life k = w.network.life k :=
    h.network.life_run_of_ne (h.arrives hdel) hk
  have hparty : (w.act i e).network.party k = w.network.party k := by
    rw [Network.party, hlife]
    rfl
  obtain ⟨hwritten, hread⟩ := h.streams k hborn₀
  obtain ⟨hwritten', hread'⟩ := h.streams_act hdel k hborn
  rw [hwritten, hread, hwritten', hread', hparty]
  exact ⟨rfl, rfl⟩

theorem credit_act (w : Internet ι) (i : ι) (e : Stack.Call) (k : ConnectionKey) :
    ((w.act i e).stack i).tcp.credit k +
        ((w.stack i).tcp.acceptedAlong ((w.stack i).calls e)).count k + w.network.born k ≤
      (w.stack i).tcp.credit k + (w.act i e).network.born k := by
  have hcredit := (w.stack i).tcp.credit_run ((w.stack i).calls e) k
  have hborn : w.network.born k + (w.network.host i).table.handshakes k ((w.stack i).calls e) ≤
      (w.act i e).network.born k := Network.born_add_handshakes_le ..
  rw [w.agree] at hborn
  rw [stack_act_self, Stack.step_tcp e.2]
  omega

end Internet

/-! ## The server and its connections -/

namespace EchoNet

variable {ι : Type} [DecidableEq ι] {args : EchoServer.Args} {owner : UInt32 → ι} {i : ι}
  {w : EchoNet ι}

/-- The connection that a socket of the server stands for was handed to the server, which has
sent back what it read from it but for what it owes. -/
def Serves (owner : UInt32 → ι) (i : ι) (w : EchoNet ι) (k : ConnectionKey) : Prop :=
  owner k.localAddr = i ∧
    1 + (w.internet.stack i).tcp.credit k ≤ w.internet.network.born k ∧
    (w.internet.network.born k ≤ 1 → ∀ rest, w.server.owes = some rest →
      w.internet.written k ++ rest = w.internet.read k)

structure Echoing (owner : UInt32 → ι) (i : ι) (w : EchoNet ι) : Prop where
  sound : w.internet.Sound owner
  paid : ∀ k, (w.internet.stack i).tcp.credit k ≤ w.internet.network.born k
  /-- a connection that was not handed to the server is unused -/
  fresh : ∀ k, owner k.localAddr = i → w.internet.network.born k ≤ 1 →
    ¬ (w.internet.written k = [] ∧ w.internet.read k = []) →
    1 + (w.internet.stack i).tcp.credit k ≤ w.internet.network.born k
  echoed : ∀ k, owner k.localAddr = i → w.internet.network.born k ≤ 1 →
    w.internet.written k <+: w.internet.read k
  serves : ∀ c, w.server.conn = some c →
    ∃ k, Stack.view (fun sock ↦ sock.connKey) (w.internet.stack i) c = some k ∧ Serves owner i w k

theorem echoing_start {addr : ι → UInt32} (h : ∀ j, owner (addr j) = j) :
    Echoing owner i (start addr) where
  sound := Internet.sound_start h
  paid _ := Nat.zero_le _
  fresh _ _ _ hne := absurd ⟨rfl, rfl⟩ hne
  echoed _ _ _ := List.prefix_rfl
  serves _ hc := by cases hc

/-- The other programs do not touch the connections of the server. -/
theorem Echoing.act_of_ne (h : Echoing owner i w) {j : ι} (hj : j ≠ i) {e : Stack.Call}
    (hdel : w.internet.Delivers owner j e) : Echoing owner i ⟨w.internet.act j e, w.server⟩ := by
  have hstack : (w.internet.act j e).stack i = w.internet.stack i :=
    w.internet.stack_act_of_ne e (Ne.symm hj)
  have hborn (k : ConnectionKey) : w.internet.network.born k ≤
      (w.internet.act j e).network.born k := Network.born_run_le ..
  have hstreams (k : ConnectionKey) (hk : owner k.localAddr = i)
      (hk' : (w.internet.act j e).network.born k ≤ 1) :
      (w.internet.act j e).written k = w.internet.written k ∧
        (w.internet.act j e).read k = w.internet.read k :=
    h.sound.streams_act_of_ne hdel (by rw [hk]; exact Ne.symm hj) hk'
  refine ⟨h.sound.act hdel, fun k ↦ ?_, fun k hk hk' hne ↦ ?_, fun k hk hk' ↦ ?_, fun c hc ↦ ?_⟩
  · rw [hstack]
    exact (h.paid k).trans (hborn k)
  · obtain ⟨hwritten, hread⟩ := hstreams k hk hk'
    rw [hwritten, hread] at hne
    rw [hstack]
    exact (h.fresh k hk ((hborn k).trans hk') hne).trans (hborn k)
  · obtain ⟨hwritten, hread⟩ := hstreams k hk hk'
    rw [hwritten, hread]
    exact h.echoed k hk ((hborn k).trans hk')
  · obtain ⟨k, hkey, hk, hcredit, howes⟩ := h.serves c hc
    refine ⟨k, by rw [hstack]; exact hkey, hk, ?_, fun hk' rest hrest ↦ ?_⟩
    · rw [hstack]
      exact hcredit.trans (hborn k)
    · obtain ⟨hwritten, hread⟩ := hstreams k hk hk'
      rw [hwritten, hread]
      exact howes ((hborn k).trans hk') rest hrest

/-- A call of the server, given what it does to the streams and to the served connection. -/
theorem Echoing.act_self (h : Echoing owner i w) {e : Stack.Call} {server : EchoServer}
    (hdel : w.internet.Delivers owner i e)
    (hmoves : ∀ k, (w.internet.stack i).accepts k e ≠ [] ∨ (w.internet.stack i).returns k e ≠ [] →
      1 + (w.internet.stack i).tcp.credit k ≤ w.internet.network.born k ∧
        ((w.internet.act i e).network.born k ≤ 1 →
          (w.internet.act i e).written k <+: (w.internet.act i e).read k))
    (hserves : ∀ c, server.conn = some c →
      ∃ k, Stack.view (fun sock ↦ sock.connKey) ((w.internet.stack i).step e) c = some k ∧
        Serves owner i ⟨w.internet.act i e, server⟩ k) :
    Echoing owner i ⟨w.internet.act i e, server⟩ := by
  have hcredit := w.internet.credit_act i e
  have hborn (k : ConnectionKey) : w.internet.network.born k ≤
      (w.internet.act i e).network.born k := Network.born_run_le ..
  have hstill (k : ConnectionKey) (hquiet : ¬ ((w.internet.stack i).accepts k e ≠ [] ∨
      (w.internet.stack i).returns k e ≠ [])) :
      (w.internet.act i e).written k = w.internet.written k ∧
        (w.internet.act i e).read k = w.internet.read k := by
    rw [not_or, not_not, not_not] at hquiet
    change w.internet.written k ++ _ = _ ∧ w.internet.read k ++ _ = _
    rw [hquiet.1, hquiet.2, List.append_nil, List.append_nil]
    exact ⟨rfl, rfl⟩
  refine ⟨h.sound.act hdel, fun k ↦ ?_, fun k hk hk' hne ↦ ?_, fun k hk hk' ↦ ?_, fun c hc ↦ ?_⟩
  · have hpaid := h.paid k
    have hk := hcredit k
    change ((w.internet.act i e).stack i).tcp.credit k ≤ (w.internet.act i e).network.born k
    omega
  · have hold : 1 + (w.internet.stack i).tcp.credit k ≤ w.internet.network.born k := by
      by_cases hmove : (w.internet.stack i).accepts k e ≠ [] ∨
          (w.internet.stack i).returns k e ≠ []
      · exact (hmoves k hmove).1
      · obtain ⟨hwritten, hread⟩ := hstill k hmove
        change ¬ ((w.internet.act i e).written k = [] ∧ (w.internet.act i e).read k = []) at hne
        rw [hwritten, hread] at hne
        exact h.fresh k hk ((hborn k).trans hk') hne
    have hstep := hcredit k
    change 1 + ((w.internet.act i e).stack i).tcp.credit k ≤ (w.internet.act i e).network.born k
    omega
  · by_cases hmove : (w.internet.stack i).accepts k e ≠ [] ∨
        (w.internet.stack i).returns k e ≠ []
    · exact (hmoves k hmove).2 hk'
    · obtain ⟨hwritten, hread⟩ := hstill k hmove
      change (w.internet.act i e).written k <+: (w.internet.act i e).read k
      rw [hwritten, hread]
      exact h.echoed k hk ((hborn k).trans hk')
  · obtain ⟨k, hkey, hrest⟩ := hserves c hc
    refine ⟨k, ?_, hrest⟩
    change Stack.view _ ((w.internet.act i e).stack i) c = some k
    rw [Internet.stack_act_self]
    exact hkey

theorem Echoing.act_quiet (h : Echoing owner i w) {e : Stack.Call} {server : EchoServer}
    (hdel : w.internet.Delivers owner i e)
    (hquiet : ∀ k, (w.internet.stack i).accepts k e = [] ∧ (w.internet.stack i).returns k e = [])
    (hserver : server.conn = none ∨ server = w.server ∧
      Stack.view (fun sock ↦ sock.connKey) ((w.internet.stack i).step e) =
        Stack.view (fun sock ↦ sock.connKey) (w.internet.stack i)) :
    Echoing owner i ⟨w.internet.act i e, server⟩ := by
  refine h.act_self hdel (fun k hmove ↦ ?_) fun c hc ↦ ?_
  · rcases hmove with hmove | hmove
    · exact absurd (hquiet k).1 hmove
    · exact absurd (hquiet k).2 hmove
  · rcases hserver with hnone | ⟨rfl, hview⟩
    · rw [hnone] at hc
      cases hc
    · obtain ⟨k, hkey, hk, hcredit, howes⟩ := h.serves c hc
      have hstep := w.internet.credit_act i e k
      refine ⟨k, by rw [hview]; exact hkey, hk, ?_, fun hk' rest hrest ↦ ?_⟩
      · change 1 + ((w.internet.act i e).stack i).tcp.credit k ≤
          (w.internet.act i e).network.born k
        omega
      · change (w.internet.written k ++ _) ++ rest = w.internet.read k ++ _
        rw [(hquiet k).1, (hquiet k).2, List.append_nil, List.append_nil]
        exact howes ((Network.born_run_le _ _ _ _).trans hk') rest hrest

end EchoNet

namespace Stack

variable {s : Stack} {key k : ConnectionKey}

/-- A call of `accept` that returns a socket has taken the first key that waits. -/
theorem accept_some {listener conn : SocketId} {start : Instant} {timedOut : Bool}
    (h : (s.accept listener start []).2.2 = some (some conn, timedOut)) :
    ∃ l key, s.acceptable listener = some (l, key) ∧ conn = s.nextSocketId := by
  unfold accept at h
  unfold acceptable
  cases hl : s.socketOf listener with
  | none =>
      rw [hl] at h
      cases h
  | some l =>
      rw [hl] at h
      dsimp only at h ⊢
      split_ifs at h ⊢ with hlistener
      · simp only [block, acceptPoll] at h
        split at h
        · cases h
        · next tcp key heq =>
            obtain ⟨hconn, -⟩ := Prod.mk.inj (Option.some.inj h)
            exact ⟨l, key, by rw [heq]; rfl, (Option.some.inj hconn).symm⟩
      · cases h

theorem mem_waiting_of_acceptable {listener : SocketId} {l : Socket}
    (h : s.acceptable listener = some (l, key)) (start : Instant) :
    key ∈ s.tcp.waiting ∧
      0 < (s.tcp.acceptedAlong (s.calls (.accept listener start []))).count key := by
  have hcalls : s.calls (.accept listener start []) =
      .accept l.listenAddr l.listenPort :: capCalls key l.opts := by
    simp only [calls, h]
  have haccepted : (TableEvent.accept l.listenAddr l.listenPort).accepted s.tcp = some key :=
    accept_of_acceptable h
  rw [hcalls, TcpTable.acceptedAlong, haccepted]
  exact ⟨TcpTable.mem_waiting_of_accepted haccepted, by simp⟩

/-- A connection from which `recv` returns nothing has been drained to its FIN. -/
theorem drained_of_recv {id : SocketId} {len : ℕ} {start : Instant} {data : Bytes}
    {c : TcpConnection} (hview : view (fun sock ↦ sock.connKey) s id = some key) (hlen : 0 < len)
    (h : (s.recv id len start []).2.2 = some (0, data)) (hc : s.tcp.lookup key = some c) :
    c.recvBuffer = [] ∧ c.state.finTaken := by
  obtain ⟨sock, hsock, hkey⟩ := Option.bind_eq_some_iff.mp hview
  simp only [recv, hsock, hkey, block] at h
  obtain ⟨hempty, htcp, hclosed⟩ := recvPoll_zero h
  have hlook : (recvPoll key len s).1.tcp.lookup key = some (c.recv len) := by
    rw [htcp, TcpTable.recv, TcpTable.lookup_withConnection, if_pos rfl, hc]
    rfl
  have htaken : (c.recv len).state.finTaken := finTaken_of_remoteClosed hclosed hlook
  refine ⟨?_, htaken⟩
  rw [TcpTable.recvResult, hc] at hempty
  rcases List.take_eq_nil_iff.mp hempty with hmin | hnil
  · exact List.eq_nil_of_length_eq_zero (by omega)
  · exact hnil

end Stack

namespace EchoNet

variable {ι : Type} [DecidableEq ι] {args : EchoServer.Args} {owner : UInt32 → ι} {i : ι}
  {w : EchoNet ι}

theorem Echoing.act_accept (h : Echoing owner i w) {listener conn : SocketId} {left : ℕ}
    {start : Instant} {timedOut : Bool}
    (hdel : w.internet.Delivers owner i (.accept listener start []))
    (haccept : ((w.internet.stack i).accept listener start []).2.2 = some (some conn, timedOut)) :
    Echoing owner i
      ⟨w.internet.act i ⟨.accept listener start [], rfl⟩, .recv listener conn left⟩ := by
  obtain ⟨l, key, hacc, rfl⟩ := Stack.accept_some haccept
  obtain ⟨hwaiting, hcount⟩ := Stack.mem_waiting_of_acceptable hacc start
  have hcredit := w.internet.credit_act i ⟨.accept listener start [], rfl⟩ key
  dsimp only at hcredit
  have hpaid := h.paid key
  have howner : owner key.localAddr = i := by
    apply h.sound.network.owner_of_waiting
    rw [w.internet.agree]
    exact hwaiting
  refine h.act_self hdel (fun k hmove ↦ ?_) fun c hc ↦
    ⟨key, ?_, howner, ?_, fun hk' rest hrest ↦ ?_⟩
  · rcases hmove with hmove | hmove <;> exact absurd rfl hmove
  · obtain rfl := Option.some.inj hc
    rw [Stack.view_accept hacc, Function.update_self]
  · change 1 + ((w.internet.act i _).stack i).tcp.credit key ≤ (w.internet.act i _).network.born key
    omega
  · -- the key was waiting, so nothing was read or written under it
    have hpos : 0 < (w.internet.stack i).tcp.credit key :=
      Nat.lt_of_lt_of_le (List.count_pos_iff.mpr hwaiting) (Nat.le_add_right _ _)
    have hk : w.internet.network.born key ≤ 1 := (Network.born_run_le _ _ _ _).trans hk'
    have hunused : w.internet.written key = [] ∧ w.internet.read key = [] := by
      by_contra hne
      have := h.fresh key howner hk hne
      omega
    obtain rfl := Option.some.inj hrest
    change (w.internet.written key ++ []) ++ [] = w.internet.read key ++ []
    rw [hunused.1, hunused.2]
    rfl

/-- A call on the socket of the served connection moves the streams of this connection only. -/
theorem Echoing.act_serving (h : Echoing owner i w) {e : Stack.Call} {server : EchoServer}
    {conn : SocketId} {key : ConnectionKey} (hdel : w.internet.Delivers owner i e)
    (hconn : w.server.conn = some conn) (hconn' : server.conn = some conn)
    (hkey : (w.internet.stack i).view (fun sock ↦ sock.connKey) conn = some key)
    (hkey' : ((w.internet.stack i).step e).view (fun sock ↦ sock.connKey) conn = some key)
    (hother : ∀ k, key ≠ k →
      (w.internet.stack i).accepts k e = [] ∧ (w.internet.stack i).returns k e = [])
    (hstreams : (∀ rest, w.server.owes = some rest →
        w.internet.written key ++ rest = w.internet.read key) →
      (w.internet.act i e).written key <+: (w.internet.act i e).read key ∧
        ∀ rest, server.owes = some rest →
          (w.internet.act i e).written key ++ rest = (w.internet.act i e).read key) :
    Echoing owner i ⟨w.internet.act i e, server⟩ := by
  obtain ⟨key₀, hkey₀, hk, hcredit, howes⟩ := h.serves conn hconn
  obtain rfl := Option.some.inj (hkey₀.symm.trans hkey)
  have hstep := w.internet.credit_act i e key₀
  have hborn (hborn' : (w.internet.act i e).network.born key₀ ≤ 1) :
      w.internet.network.born key₀ ≤ 1 := (Network.born_run_le _ _ _ _).trans hborn'
  refine h.act_self hdel (fun k hmove ↦ ?_) fun c hc ↦ ?_
  · by_cases hkk : key₀ = k
    · subst hkk
      exact ⟨hcredit, fun hk' ↦ (hstreams (howes (hborn hk'))).1⟩
    · obtain ⟨haccepts, hreturns⟩ := hother k hkk
      rcases hmove with hmove | hmove
      · exact absurd haccepts hmove
      · exact absurd hreturns hmove
  · rw [hconn'] at hc
    obtain rfl := Option.some.inj hc
    refine ⟨key₀, hkey', hk, ?_, fun hk' ↦ (hstreams (howes (hborn hk'))).2⟩
    change 1 + ((w.internet.act i e).stack i).tcp.credit key₀ ≤
      (w.internet.act i e).network.born key₀
    omega

theorem Echoing.act_recv (h : Echoing owner i w) {listener conn : SocketId} {left : ℕ}
    {start : Instant} (hserver : w.server = .recv listener conn left)
    (hdel : w.internet.Delivers owner i (.recv conn EchoServer.bufLen start [])) :
    Echoing owner i ⟨w.internet.act i ⟨.recv conn EchoServer.bufLen start [], rfl⟩,
      w.server.next args (w.internet.stack i) (.recv conn EchoServer.bufLen start [])⟩ := by
  have hconn : w.server.conn = some conn := by
    rw [hserver]
    rfl
  obtain ⟨key, hkey, -⟩ := h.serves conn hconn
  refine h.act_serving hdel hconn ?_ hkey ?_ (fun k hne ↦ ⟨rfl, ?_⟩) fun howes ↦ ?_
  · rw [hserver, EchoServer.conn_next_recv]
  · rw [Stack.view_step (by rfl)]
    exact hkey
  · exact if_neg fun hkey' ↦ hne (Option.some.inj (hkey.symm.trans hkey'))
  · have hall : w.internet.written key = w.internet.read key := by
      simpa using howes [] (by rw [hserver]; rfl)
    change w.internet.written key ++ [] <+: w.internet.read key ++ _ ∧
      ∀ rest, _ → (w.internet.written key ++ []) ++ rest = w.internet.read key ++
        (w.internet.stack i).returns key (.recv conn EchoServer.bufLen start [])
    rw [List.append_nil, hall]
    refine ⟨List.prefix_append _ _, fun rest hrest ↦ ?_⟩
    rw [hserver] at hrest
    rw [EchoServer.owes_next_recv args hkey hrest]

theorem Echoing.act_send (h : Echoing owner i w) {listener conn : SocketId} {left : ℕ}
    {rest : Bytes} {now : Instant} (hserver : w.server = .send listener conn left rest)
    (hdel : w.internet.Delivers owner i (.send conn now rest)) :
    Echoing owner i ⟨w.internet.act i ⟨.send conn now rest, trivial⟩,
      w.server.next args (w.internet.stack i) (.send conn now rest)⟩ := by
  have hconn : w.server.conn = some conn := by
    rw [hserver]
    rfl
  obtain ⟨key, hkey, -⟩ := h.serves conn hconn
  refine h.act_serving hdel hconn ?_ hkey ?_ (fun k hne ↦ ⟨?_, rfl⟩) fun howes ↦ ?_
  · rw [hserver, EchoServer.conn_next_send]
  · rw [Stack.view_step (e := .send conn now rest) trivial]
    exact hkey
  · exact if_neg fun hkey' ↦ hne (Option.some.inj (hkey.symm.trans hkey'))
  · have hall : w.internet.written key ++ rest = w.internet.read key :=
      howes rest (by rw [hserver]; rfl)
    change w.internet.written key ++ (w.internet.stack i).accepts key (.send conn now rest) <+:
        w.internet.read key ++ [] ∧
      ∀ rest', _ → (w.internet.written key ++
        (w.internet.stack i).accepts key (.send conn now rest)) ++ rest' =
          w.internet.read key ++ []
    rw [List.append_nil, ← hall]
    refine ⟨?_, fun rest' hrest ↦ ?_⟩
    · rw [List.prefix_append_right_inj, Stack.accepts_of_view hkey]
      exact List.take_prefix _ _
    · rw [hserver] at hrest
      rw [List.append_assoc, EchoServer.owes_next_send args hkey hrest]

/-- A call that the program makes keeps the books. -/
theorem Echoing.act_server {internet : Internet ι} {server : EchoServer}
    (h : Echoing owner i ⟨internet, server⟩) {e : StackEvent} (he : e.Immediate)
    (hdel : internet.Delivers owner i e) (hcalls : server.Calls args e) :
    Echoing owner i ⟨internet.act i ⟨e, he⟩, server.next args (internet.stack i) e⟩ := by
  cases server with
  | socket =>
      cases e with
      | socket => exact h.act_quiet hdel (fun _ ↦ ⟨rfl, rfl⟩) (.inl rfl)
      | _ => cases hcalls
  | listen listener =>
      cases e with
      | listen id port =>
          refine h.act_quiet hdel (fun _ ↦ ⟨rfl, rfl⟩) (.inl ?_)
          simp only [EchoServer.next]
          split_ifs
          · exact EchoServer.conn_forConnections _ _
          · rfl
      | _ => cases hcalls
  | accept listener left =>
      cases e with
      | pump p => exact h.act_quiet hdel (fun _ ↦ ⟨rfl, rfl⟩) (.inl rfl)
      | accept id start pumps =>
          obtain rfl := he
          obtain rfl := hcalls
          simp only [EchoServer.next]
          split
          · exact h.act_quiet hdel (fun _ ↦ ⟨rfl, rfl⟩) (.inl rfl)
          · exact h.act_quiet hdel (fun _ ↦ ⟨rfl, rfl⟩)
              (.inl (EchoServer.conn_forConnections _ _))
          · next haccept => exact h.act_accept hdel haccept
      | _ => cases hcalls
  | recv listener conn left =>
      cases e with
      | pump p =>
          refine h.act_quiet hdel (fun _ ↦ ⟨rfl, rfl⟩) (.inr ⟨rfl, ?_⟩)
          exact Stack.view_step (e := .pump p) trivial
      | recv id len start pumps =>
          obtain rfl := he
          obtain ⟨rfl, rfl⟩ := hcalls
          exact h.act_recv rfl hdel
      | _ => cases hcalls
  | send listener conn left rest =>
      cases e with
      | send id now data =>
          obtain ⟨rfl, rfl⟩ := hcalls
          exact h.act_send rfl hdel
      | _ => cases hcalls
  | close listener conn left =>
      cases e with
      | close id now pumps =>
          exact h.act_quiet hdel (fun _ ↦ ⟨rfl, rfl⟩)
            (.inl (EchoServer.conn_forConnections _ _))
      | _ => cases hcalls
  | closeListener listener =>
      cases e with
      | pump p => exact h.act_quiet hdel (fun _ ↦ ⟨rfl, rfl⟩) (.inl rfl)
      | close id now pumps => exact h.act_quiet hdel (fun _ ↦ ⟨rfl, rfl⟩) (.inl rfl)
      | _ => cases hcalls
  | exit => cases e <;> cases hcalls

theorem Reached.echoing (h : Reached args owner i w) : Echoing owner i w := by
  refine Run.Reaches.invariant (P := Echoing owner i) ?_ ?_ h
  · rintro w ⟨addr, rfl, howner⟩
    exact echoing_start howner
  · rintro ⟨internet, server⟩ ⟨j, e, he⟩ _ ⟨hdel, hcalls⟩ hw
    dsimp only at hdel hcalls
    unfold EchoNet.act
    dsimp only
    split_ifs with hj
    · subst hj
      exact hw.act_server he hdel (hcalls rfl)
    · exact hw.act_of_ne hj hdel

/-- Whatever the clients do and whatever happens to the packets: the server has sent a prefix of
what it read, and a client reads back a prefix of what it has written. -/
theorem client_reads_back {k : ConnectionKey} (hw : Reached args owner i w)
    (hk : owner k.localAddr = i) (ha : w.internet.network.born k ≤ 1)
    (hb : w.internet.network.born k.mirror ≤ 1)
    (hlen : (w.internet.written k).length < 2 ^ 32 - 2)
    (hlen' : (w.internet.written k.mirror).length < 2 ^ 32 - 2) :
    w.internet.written k <+: w.internet.read k ∧
      w.internet.read k.mirror <+: w.internet.written k.mirror := by
  have hecho := hw.echoing
  have hback := hecho.sound.read_prefix ha hb (hecho.sound.fits ha hb hlen hlen')
  have hthere := hecho.sound.read_prefix (k := k.mirror) hb ha
    (hecho.sound.fits (k := k.mirror) hb ha hlen' hlen)
  have hserver := hecho.echoed k hk ha
  exact ⟨hserver, (hback.trans hserver).trans hthere⟩

/-- The server on stack 0 listens on port 80.  The client on stack 1 writes three bytes, reads
them back and closes. -/
theorem exists_answered :
    ∃ w w' : EchoNet (Fin 2), w.Reached ⟨80, 1⟩ Internet.twoOwner 0 ∧
      w'.Reached ⟨80, 1⟩ Internet.twoOwner 0 ∧
      (w.internet.read ⟨2, 49152, 1, 80⟩ = [1, 2, 3] ∧
        w.internet.network.born ⟨1, 80, 2, 49152⟩ ≤ 1 ∧
        w.internet.network.born ⟨2, 49152, 1, 80⟩ ≤ 1 ∧
        (w.internet.written ⟨1, 80, 2, 49152⟩).length < 2 ^ 32 - 2 ∧
        (w.internet.written ⟨2, 49152, 1, 80⟩).length < 2 ^ 32 - 2) ∧
      w'.server = .recv 1 2 0 ∧
      (w'.internet.stack 0).view (fun sock ↦ sock.connKey) 2 = some ⟨1, 80, 2, 49152⟩ ∧
      ((w'.internet.stack 0).recv 2 EchoServer.bufLen 0 []).2.2 = some (0, []) ∧
      ((w'.internet.stack 0).tcp.lookup ⟨1, 80, 2, 49152⟩).map (fun c ↦ c.state) =
        some .closeWait ∧
      w'.internet.network.born ⟨1, 80, 2, 49152⟩ ≤ 1 ∧
      w'.internet.network.born ⟨2, 49152, 1, 80⟩ ≤ 1 ∧
      w'.internet.written ⟨1, 80, 2, 49152⟩ = [1, 2, 3] ∧
      (w'.internet.written ⟨2, 49152, 1, 80⟩).length < 2 ^ 32 - 2 := by
  have hstart : (start Internet.twoAddr).Reached ⟨80, 1⟩ Internet.twoOwner 0 :=
    .start ⟨_, rfl, by decide⟩
  have hlisten := (hstart.serve .socket rfl ⟨.socket, trivial⟩ trivial trivial).serve (.listen 1)
    (by decide +kernel) ⟨.listen 1 80, trivial⟩ trivial ⟨rfl, rfl⟩
  have hsyn := (hlisten.call (j := 1) (by decide) ⟨.socket, trivial⟩ trivial).call (j := 1)
    (by decide) ⟨.connect 1 0 1000 1 80 [], rfl⟩ trivial
  have hgreeted := ((hsyn.deliver (.accept 1 0) (by decide +kernel) (fun _ ↦ trivial) 0).deliver
    (.accept 1 0) (by decide +kernel) (fun _ ↦ trivial) 1).deliver (.accept 1 0)
    (by decide +kernel) (fun _ ↦ trivial) 2
  have haccept := (hgreeted.serve (.accept 1 0) (by decide +kernel) ⟨.accept 1 0 [], rfl⟩ trivial
    rfl).call (j := 1) (by decide) ⟨.send 1 0 [1, 2, 3], trivial⟩ trivial
  have hrecv := (haccept.deliver (.recv 1 2 0) (by decide +kernel) (fun _ ↦ trivial) 3).serve
    (.recv 1 2 0) (by decide +kernel) ⟨.recv 2 EchoServer.bufLen 0 [], rfl⟩ trivial ⟨rfl, rfl⟩
  have hsend := hrecv.serve (.send 1 2 0 [1, 2, 3]) (by decide +kernel)
    ⟨.send 2 0 [1, 2, 3], trivial⟩ trivial ⟨rfl, rfl⟩
  have hanswered := (hsend.deliver (.recv 1 2 0) (by decide +kernel) (fun _ ↦ trivial) 5).call
    (j := 1) (by decide) ⟨.recv 1 10 0 [], rfl⟩ trivial
  have hclosed := (hanswered.call (j := 1) (by decide) ⟨.close 1 0 [], rfl⟩ trivial).deliver
    (.recv 1 2 0) (by decide +kernel) (fun _ ↦ trivial) 7
  exact ⟨_, _, hanswered, hclosed, by decide +kernel, by decide +kernel⟩

theorem client_reads_back_answered :
    ∃ w : EchoNet (Fin 2), w.Reached ⟨80, 1⟩ Internet.twoOwner 0 ∧
      w.internet.read ⟨2, 49152, 1, 80⟩ = [1, 2, 3] ∧
      w.internet.written ⟨1, 80, 2, 49152⟩ <+: w.internet.read ⟨1, 80, 2, 49152⟩ ∧
      w.internet.read ⟨2, 49152, 1, 80⟩ <+: w.internet.written ⟨2, 49152, 1, 80⟩ := by
  obtain ⟨w, -, hw, -, ⟨hread, ha, hb, hlen, hlen'⟩, -⟩ := exists_answered
  exact ⟨w, hw, hread, client_reads_back hw (by decide) ha hb hlen hlen'⟩

/-- When `recv` tells the server that the client has closed, the server has sent back every
byte that the client wrote before its FIN. -/
theorem all_sent_back_at_end {k : ConnectionKey} {c : TcpConnection}
    {listener conn : SocketId} {left : ℕ} {start : Instant} {data : Bytes}
    (hw : Reached args owner i w) (hserver : w.server = .recv listener conn left)
    (hkey : (w.internet.stack i).view (fun sock ↦ sock.connKey) conn = some k)
    (hend : ((w.internet.stack i).recv conn EchoServer.bufLen start []).2.2 = some (0, data))
    (hc : (w.internet.stack i).tcp.lookup k = some c) (hopen : c.state ≠ .closed)
    (ha : w.internet.network.born k ≤ 1) (hb : w.internet.network.born k.mirror ≤ 1)
    (hlen : (w.internet.written k).length < 2 ^ 32 - 2)
    (hlen' : (w.internet.written k.mirror).length < 2 ^ 32 - 2) :
    w.internet.written k = (w.internet.network.party k.mirror).beforeFin := by
  have hecho := hw.echoing
  obtain ⟨k', hkey', -, -, howes⟩ := hecho.serves conn (by rw [hserver]; rfl)
  obtain rfl := Option.some.inj (hkey'.symm.trans hkey)
  have hall : w.internet.written k' = w.internet.read k' := by
    simpa using howes ha [] (by rw [hserver]; rfl)
  obtain ⟨hempty, htaken⟩ := Stack.drained_of_recv hkey (by decide) hend hc
  rw [← w.internet.agree, (w.internet.network.host i).agree] at hc
  obtain ⟨t, ht, rfl⟩ := Option.map_eq_some_iff.mp hc
  have hlife := (hecho.sound.network.kept.place i k' t ht).2
  have hparty : w.internet.network.party k' = t := Network.party_of_life hlife
  obtain ⟨hreach, -⟩ := hecho.sound.network.kept.live k' t hlife
  rw [hall]
  refine hecho.sound.read_all (k := k'.mirror) ha
    (hecho.sound.fits (k := k'.mirror) hb ha hlen' hlen) ?_ ?_
  · rw [ConnectionKey.mirror_mirror, hparty]
    exact hreach.fin_of_finTaken hopen htaken
  · rw [ConnectionKey.mirror_mirror, hparty]
    exact hempty

theorem all_sent_back_at_end_closed :
    ∃ w : EchoNet (Fin 2), w.Reached ⟨80, 1⟩ Internet.twoOwner 0 ∧
      ((w.internet.stack 0).recv 2 EchoServer.bufLen 0 []).2.2 = some (0, []) ∧
      w.internet.written ⟨1, 80, 2, 49152⟩ = [1, 2, 3] ∧
      w.internet.written ⟨1, 80, 2, 49152⟩ =
        (w.internet.network.party ⟨2, 49152, 1, 80⟩).beforeFin := by
  obtain ⟨-, w, -, hw, -, hserver, hkey, hend, hfacts, ha, hb, hwritten, hlen'⟩ := exists_answered
  obtain ⟨c, hc, hst⟩ := Option.map_eq_some_iff.mp hfacts
  have hopen : c.state ≠ .closed := by
    rw [hst]
    decide
  have hlen : (w.internet.written ⟨1, 80, 2, 49152⟩).length < 2 ^ 32 - 2 := by
    rw [hwritten]
    decide
  exact ⟨w, hw, hend, hwritten,
    all_sent_back_at_end hw hserver hkey hend hc hopen ha hb hlen hlen'⟩

end EchoNet

end MiniTcp
