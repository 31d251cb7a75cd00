import MiniTcp.Sockets.ConnectionSizes
import MiniTcp.Tcp.Abort

/-!
# Calls that fail

`bind`, `setsockopt`, `send` and `sendto` check before they write, so a failed call leaves
the stack as it was.  `listen` marks its socket before it asks the table.  `connect` opens
its connection first and never removes it: after a failed `connect` the connection is gone
exactly if one of its three hundred rounds has taken in a RST for it or has given it up.
-/

namespace MiniTcp

theorem UdpTable.bind_failed {t : UdpTable} {addr : UInt32} {port : UInt16} {reuseAddr : Bool}
    {cap : ℕ} (h : (t.bind addr port reuseAddr cap).2 = false) :
    (t.bind addr port reuseAddr cap).1 = t := by
  unfold bind at h ⊢
  split_ifs at h ⊢
  rfl

theorem TcpTable.listen_failed {t : TcpTable} {addr : UInt32} {port : UInt16} {reuseAddr : Bool}
    (h : (t.listen addr port reuseAddr).2 = false) : (t.listen addr port reuseAddr).1 = t := by
  unfold listen at h ⊢
  split_ifs at h ⊢
  rfl

namespace Stack

variable {s s' : Stack} {id : SocketId} {α : Type}

/-- The same stack, except that the order of the sockets is not looked at. -/
structure SameAs (s' s : Stack) : Prop where
  sockets : s'.socketOf = s.socketOf
  rest : { s' with sockets := s.sockets } = s

/-! ## Calls that check first -/

theorem bind_failed {addr : UInt32} {port : UInt16} (h : (s.bind id addr port).2 = false) :
    (s.bind id addr port).1 = s := by
  unfold bind at h ⊢
  generalize (if addr = 0 then s.selfAddr else addr) = bindAddr at h ⊢
  cases hsock : s.socketOf id with
  | none => rfl
  | some sock =>
      rw [hsock] at h
      dsimp only at h ⊢
      by_cases hkind : sock.kind ≠ .udp
      · rw [if_pos hkind]
      · rw [if_neg hkind] at h ⊢
        change (s.udp.bind ..).2 = false at h
        dsimp only
        rw [h, if_neg Bool.false_ne_true, UdpTable.bind_failed h]

theorem setsockopt_failed {opt : SockOpt} (h : (s.setsockopt id opt).2 = false) :
    (s.setsockopt id opt).1 = s := by
  unfold setsockopt at h ⊢
  cases hsock : s.socketOf id with
  | none => rfl
  | some sock =>
      rw [hsock] at h
      cases opt with
      | rcvTimeo | reuseAddr => cases h
      | rcvBuf v | sndBuf v =>
          dsimp only at h ⊢
          split_ifs at h ⊢
          · rfl
          · split at h <;> cases h

theorem send_failed {now : Instant} {data : Bytes} (h : (s.send id now data).2.2 = -1) :
    (s.send id now data).1 = s := by
  unfold send at h ⊢
  cases hkey : (s.socketOf id).bind fun sock ↦ sock.connKey with
  | none => rfl
  | some key =>
      rw [hkey] at h
      dsimp only at h
      omega

theorem sendto_failed {data : Bytes} {dstAddr : UInt32} {dstPort : UInt16}
    (h : (s.sendto id data dstAddr dstPort).2.2 = -1) :
    (s.sendto id data dstAddr dstPort).1 = s := by
  unfold sendto at h ⊢
  cases hsock : s.socketOf id with
  | none => rfl
  | some sock =>
      rw [hsock] at h
      dsimp only at h ⊢
      split_ifs at h ⊢
      rfl

/-! ## `listen` -/

/-- The socket is marked as the listener it is asked to be, or there is none. -/
def Marked (s : Stack) (id : SocketId) (port : UInt16) : Prop :=
  ∀ sock, s.socketOf id = some sock →
    sock.isListener = true ∧ sock.listenAddr = s.selfAddr ∧ sock.listenPort = port

theorem listen_failed_iff {port : UInt16} (h : (s.listen id port).2 = false) :
    (s.listen id port).1.SameAs s ↔ s.Marked id port := by
  unfold listen at h ⊢
  cases hsock : s.socketOf id with
  | none => exact iff_of_true ⟨rfl, rfl⟩ fun sock hs ↦ by rw [hsock] at hs; cases hs
  | some sock =>
      rw [hsock] at h
      change (s.tcp.listen s.selfAddr port sock.opts.reuseAddr).2 = false at h
      have hsockets := socketOf_setSocket s id
        { sock with isListener := true, listenAddr := s.selfAddr, listenPort := port }
      have hrest : { s with tcp := (s.tcp.listen s.selfAddr port sock.opts.reuseAddr).1 } = s := by
        rw [TcpTable.listen_failed h]
      constructor
      · rintro ⟨hsame, -⟩ sock' hs
        obtain rfl := Option.some.inj (hsock.symm.trans hs)
        have hid := congrFun (hsockets.symm.trans hsame) id
        rw [Function.update_self, hsock] at hid
        rw [← Option.some.inj hid]
        exact ⟨rfl, rfl, rfl⟩
      · intro hmarked
        obtain ⟨hlistener, haddr, hport⟩ := hmarked sock hsock
        refine ⟨hsockets.trans ?_, hrest⟩
        rw [Function.update_eq_self_iff, hsock, ← hlistener, ← haddr, ← hport]

/-! ## `connect` -/

section Rounds

variable {poll : Stack → Option α} {n : ℕ} {pumps : List Pump} {r : α}

theorem rounds_of_some (h : poll s = some r) :
    rounds poll (n + 1) pumps s = (s, [], some (some r)) := by
  unfold rounds
  rw [h]

theorem rounds_of_none_nil (h : poll s = none) : rounds poll (n + 1) [] s = (s, [], none) := by
  unfold rounds
  rw [h]

theorem rounds_of_none_cons (h : poll s = none) (p : Pump) :
    rounds poll (n + 1) (p :: pumps) s =
      ((rounds poll n pumps (s.pumpOnce p).1).1,
        (s.pumpOnce p).2 ++ (rounds poll n pumps (s.pumpOnce p).1).2.1,
        (rounds poll n pumps (s.pumpOnce p).1).2.2) := by
  rw [rounds, h]

end Rounds

/-- The stack right after `connect` has sent its SYN. -/
def dialing (s : Stack) (id : SocketId) (now : Instant) (iss remoteAddr : UInt32)
    (remotePort : UInt16) : Stack :=
  s.step (.connect id now iss remoteAddr remotePort [])

theorem connect_eq {sock : Socket} (h : s.socketOf id = some sock) (now : Instant)
    (iss remoteAddr : UInt32) (remotePort : UInt16) (pumps : List Pump) :
    ∃ out, s.connect id now iss remoteAddr remotePort pumps =
      ((rounds (connectPoll (s.dialKey remoteAddr remotePort)) 300 pumps
          (s.dialing id now iss remoteAddr remotePort)).1, out,
        (rounds (connectPoll (s.dialKey remoteAddr remotePort)) 300 pumps
          (s.dialing id now iss remoteAddr remotePort)).2.2.map fun r ↦ r.getD false) := by
  have hdialing : s.dialing id now iss remoteAddr remotePort =
      ({ s with tcp := (s.tcp.connect now iss s.selfAddr remoteAddr remotePort).1 }.setSocket id
        { sock with connKey := some (s.dialKey remoteAddr remotePort) }).applyCaps
          (s.dialKey remoteAddr remotePort) sock.opts := by
    simp only [dialing, step, connect, h, rounds_nil, dialKey, TcpTable.connect]
  simp only [hdialing, connect, h, TcpTable.connect, dialKey]
  exact ⟨_, rfl⟩

theorem lookup_dialing {sock : Socket} (h : s.socketOf id = some sock) (now : Instant)
    (iss remoteAddr : UInt32) (remotePort : UInt16) :
    ∃ c, (s.dialing id now iss remoteAddr remotePort).tcp.lookup
      (s.dialKey remoteAddr remotePort) = some c ∧ c.state = .synSent ∧
        c.pendingClose = false := by
  have hopened : (TableEvent.connect now iss s.selfAddr remoteAddr remotePort).opened s.tcp
      (s.dialKey remoteAddr remotePort) =
        some (.active now iss (s.dialKey remoteAddr remotePort)) := if_pos rfl
  rw [dialing, tcp_connect h, TcpTable.lookup_capCalls, if_pos rfl,
    TcpTable.lookup_opened hopened]
  exact ⟨_, rfl, rfl, rfl⟩

/-- In the round `p` a RST for the connection under `key` is accepted, or the tick gives the
connection up. -/
def AbortsIn (key : ConnectionKey) (s : Stack) (p : Pump) : Prop :=
  Run.Ever (TcpTable.Aborts key) (fun t e ↦ (t.step e).1) s.tcp (pumpCalls p)

/-- In one of the 300 rounds of `connect`, its connection is aborted. -/
def AbortedWhileDialing (s : Stack) (id : SocketId) (now : Instant) (iss remoteAddr : UInt32)
    (remotePort : UInt16) (pumps : List Pump) : Prop :=
  Run.Ever (AbortsIn (s.dialKey remoteAddr remotePort)) (fun s p ↦ (s.pumpOnce p).1)
    (s.dialing id now iss remoteAddr remotePort) (pumps.take 300)

section Dialing

variable {t : TcpTable} {key : ConnectionKey} {c : TcpConnection} {p : Pump}

/-- A connection on which `connect` waits, or may stop waiting with success. -/
def Dialed (key : ConnectionKey) (t : TcpTable) : Prop :=
  ∃ c, t.lookup key = some c ∧ c.Unclosed ∧ (c.state = .synSent ∨ c.state = .established)

theorem opened_segment_of_lookup (hc : t.lookup key = some c) (now : Instant) (iss : UInt32)
    (ipHdr : IpHeader) (payload : Bytes) :
    (TableEvent.segment now iss ipHdr payload).opened t key = none := by
  rw [Option.eq_none_iff_forall_ne_some]
  intro tr hopened
  cases TableEvent.opened_cases hopened with
  | segment hseg hkey hnone =>
      rw [hc] at hnone
      cases hnone

theorem dialed_segment {now : Instant} {iss : UInt32} {ipHdr : IpHeader} {payload : Bytes}
    (hc : t.lookup key = some c) (hun : c.Unclosed) (hst : c.state = .synSent)
    (habort : ¬ t.Aborts key (.segment now iss ipHdr payload)) :
    Dialed key (t.step (.segment now iss ipHdr payload)).1 := by
  have hafter := TcpTable.unclosed_after hc hun habort fun now' hon ↦ by
    cases TableEvent.on_cases hon
  refine ⟨_, TcpTable.lookup_step_of_open hc (opened_segment_of_lookup hc ..) hafter.ne_closed,
    hafter, ?_⟩
  cases hon : (TableEvent.segment now iss ipHdr payload).on key with
  | none => exact .inl hst
  | some ce =>
      cases TableEvent.on_cases hon with
      | @segment _ _ _ _ data seg hseg hkey =>
          have hrst : ¬ hasFlag seg.flags tcpRst := fun h ↦ habort ⟨c, _, hc, hon, h⟩
          change (c.processSegment now seg data).conn.state = _ ∨
            (c.processSegment now seg data).conn.state = _
          unfold TcpConnection.processSegment
          rw [if_neg fun h ↦ hrst h.1, hst]
          dsimp only
          unfold TcpConnection.synSentSegment
          split_ifs
          · exact .inr rfl
          · exact .inl hst

theorem dialed_tick {now : Instant} (h : Dialed key t) (habort : ¬ t.Aborts key (.tick now)) :
    Dialed key (t.step (.tick now)).1 := by
  obtain ⟨c, hc, hun, hst⟩ := h
  have hup : ¬ c.givesUp now := fun h ↦ habort ⟨c, _, hc, rfl, hun.ne_timeWait, h⟩
  obtain ⟨hstate, hpending⟩ := hun.tick hup
  have hafter : (c.tick now).1.Unclosed := ⟨hstate ▸ hun.1, hpending⟩
  exact ⟨_, TcpTable.lookup_step_of_open hc rfl hafter.ne_closed, hafter, hstate ▸ hst⟩

theorem lookup_tick_of_none {now : Instant} (h : t.lookup key = none) :
    (t.step (.tick now)).1.lookup key = none := by
  rw [Option.eq_none_iff_forall_ne_some]
  intro c hc
  rcases TcpTable.lookup_step hc with ⟨tr, hopened, -⟩ | ⟨-, c₀, hc₀, -⟩
  · cases hopened
  · rw [h] at hc₀
    cases hc₀

theorem lookup_tick_of_aborts {now : Instant} (h : Dialed key t)
    (habort : t.Aborts key (.tick now)) :
    (t.step (.tick now)).1.lookup key = none := by
  obtain ⟨c, hc, hun, -⟩ := h
  exact TcpTable.lookup_of_aborts hc hun habort

/-- One round of `connect`: the connection is gone exactly if it was aborted. -/
theorem pumpOnce_of_synSent (hc : s.tcp.lookup key = some c) (hst : c.state = .synSent)
    (hpending : c.pendingClose = false) (p : Pump) :
    (s.AbortsIn key p → (s.pumpOnce p).1.tcp.lookup key = none) ∧
      (¬ s.AbortsIn key p → Dialed key (s.pumpOnce p).1.tcp) := by
  have hun : c.Unclosed := ⟨by rw [hst]; rfl, hpending⟩
  have hdialed : Dialed key s.tcp := ⟨c, hc, hun, .inl hst⟩
  have htcp : (s.pumpOnce p).1.tcp = s.tcp.run (pumpCalls p) := pumpOnce_tcp s p
  rw [htcp, AbortsIn]
  rcases pumpCalls_cases p with hcalls | ⟨now, iss, ipHdr, payload, hcalls⟩
  · rw [hcalls]
    refine ⟨?_, fun hno ↦ dialed_tick hdialed fun h ↦ hno (.inl h)⟩
    rintro (habort | hnever)
    · exact lookup_tick_of_aborts hdialed habort
    · exact hnever.elim
  · rw [hcalls]
    constructor
    · rintro (habort | habort | hnever)
      · exact lookup_tick_of_none (TcpTable.lookup_of_aborts hc hun habort)
      · by_cases hfirst : s.tcp.Aborts key (.segment now iss ipHdr payload)
        · exact lookup_tick_of_none (TcpTable.lookup_of_aborts hc hun hfirst)
        · exact lookup_tick_of_aborts (dialed_segment hc hun hst hfirst) habort
      · exact hnever.elim
    · intro hno
      have hfirst := dialed_segment hc hun hst fun h ↦ hno (.inl h)
      exact dialed_tick hfirst fun h ↦ hno (.inr (.inl h))

theorem connectPoll_of_none (h : s.tcp.lookup key = none) : connectPoll key s = some false := by
  simp [connectPoll, TcpTable.isEstablished, TcpTable.isClosed, h]

theorem connectPoll_of_lookup (h : s.tcp.lookup key = some c) :
    connectPoll key s = if c.state = .established then some true
      else if c.state = .closed then some false else none := by
  simp [connectPoll, TcpTable.isEstablished, TcpTable.isClosed, h]

theorem rounds_of_gone (h : s.tcp.lookup key = none) (n : ℕ) (pumps : List Pump) :
    (rounds (connectPoll key) n pumps s).1 = s := by
  cases n with
  | zero => rfl
  | succ n => rw [rounds_of_some (connectPoll_of_none h)]

/-- With an established connection only the last check, which is not made, can fail. -/
theorem eq_zero_of_established {n : ℕ} {pumps : List Pump} (hc : s.tcp.lookup key = some c)
    (hst : c.state = .established)
    (hend : ∃ r, (rounds (connectPoll key) n pumps s).2.2 = some r ∧ r ≠ some true) : n = 0 := by
  cases n with
  | zero => rfl
  | succ n =>
      obtain ⟨r, hr, hne⟩ := hend
      rw [rounds_of_some (by rw [connectPoll_of_lookup hc, if_pos hst])] at hr
      exact absurd (Option.some.inj hr).symm hne

/-- The rounds of `connect`, if they end without success. -/
theorem rounds_of_synSent {n : ℕ} {pumps : List Pump} (hc : s.tcp.lookup key = some c)
    (hst : c.state = .synSent) (hpending : c.pendingClose = false)
    (hend : ∃ r, (rounds (connectPoll key) n pumps s).2.2 = some r ∧ r ≠ some true) :
    (rounds (connectPoll key) n pumps s).1.tcp.lookup key = none ↔
      Run.Ever (AbortsIn key) (fun s p ↦ (s.pumpOnce p).1) s (pumps.take n) := by
  have hthere {s : Stack} {c : TcpConnection} (hc : s.tcp.lookup key = some c) :
      s.tcp.lookup key ≠ none := by
    rw [hc]
    exact Option.some_ne_none c
  induction n generalizing pumps s c with
  | zero => exact iff_of_false (hthere hc) id
  | succ n ih =>
      have hwait : connectPoll key s = none := by
        rw [connectPoll_of_lookup hc, hst]
        rfl
      cases pumps with
      | nil =>
          obtain ⟨r, hr, -⟩ := hend
          rw [rounds_of_none_nil hwait] at hr
          cases hr
      | cons p pumps =>
          rw [rounds_of_none_cons hwait] at hend ⊢
          rw [List.take_succ_cons]
          change _ ↔ s.AbortsIn key p ∨ _
          obtain ⟨hgone, hkept⟩ := pumpOnce_of_synSent hc hst hpending p
          by_cases habort : s.AbortsIn key p
          · refine iff_of_true ?_ (.inl habort)
            rw [rounds_of_gone (hgone habort)]
            exact hgone habort
          · rw [or_iff_right habort]
            obtain ⟨c', hc', hun, hst' | hst'⟩ := hkept habort
            · exact ih hc' hst' hun.2 hend
            · obtain rfl := eq_zero_of_established hc' hst' hend
              exact iff_of_false (hthere hc') id

end Dialing

theorem connect_failed_iff {now : Instant} {iss remoteAddr : UInt32} {remotePort : UInt16}
    {pumps : List Pump} {sock : Socket} (hsock : s.socketOf id = some sock)
    (h : (s.connect id now iss remoteAddr remotePort pumps).2.2 = some false) :
    (s.connect id now iss remoteAddr remotePort pumps).1.tcp.lookup
        (s.dialKey remoteAddr remotePort) = none ↔
      s.AbortedWhileDialing id now iss remoteAddr remotePort pumps := by
  obtain ⟨out, heq⟩ := connect_eq hsock now iss remoteAddr remotePort pumps
  obtain ⟨c, hc, hst, hpending⟩ := lookup_dialing hsock now iss remoteAddr remotePort
  rw [heq] at h ⊢
  refine rounds_of_synSent hc hst hpending ?_
  obtain ⟨r, hr, hfalse⟩ := Option.map_eq_some_iff.mp h
  refine ⟨r, hr, ?_⟩
  rintro rfl
  cases hfalse

/-- Failed calls leave the stack as it was; `listen` does so exactly if the socket was marked
before, `connect` leaves no connection exactly if one of its rounds has aborted it. -/
theorem failed_calls_change_nothing (s : Stack) (id : SocketId) :
    (∀ addr port, (s.bind id addr port).2 = false → (s.bind id addr port).1 = s) ∧
    (∀ opt, (s.setsockopt id opt).2 = false → (s.setsockopt id opt).1 = s) ∧
    (∀ now data, (s.send id now data).2.2 = -1 → (s.send id now data).1 = s) ∧
    (∀ data dstAddr dstPort, (s.sendto id data dstAddr dstPort).2.2 = -1 →
      (s.sendto id data dstAddr dstPort).1 = s) ∧
    (∀ port, (s.listen id port).2 = false →
      ((s.listen id port).1.SameAs s ↔ s.Marked id port)) ∧
    ∀ now iss remoteAddr remotePort pumps,
      (s.connect id now iss remoteAddr remotePort pumps).2.2 = some false →
      (s.socketOf id = none → (s.connect id now iss remoteAddr remotePort pumps).1 = s) ∧
      (s.socketOf id ≠ none →
        ((s.connect id now iss remoteAddr remotePort pumps).1.tcp.lookup
            (s.dialKey remoteAddr remotePort) = none ↔
          s.AbortedWhileDialing id now iss remoteAddr remotePort pumps)) := by
  refine ⟨fun _ _ h ↦ bind_failed h, fun _ h ↦ setsockopt_failed h, fun _ _ h ↦ send_failed h,
    fun _ _ _ h ↦ sendto_failed h, fun _ h ↦ listen_failed_iff h, ?_⟩
  intro now iss remoteAddr remotePort pumps h
  constructor
  · intro hnone
    rw [connect, hnone]
  · intro hsome
    obtain ⟨sock, hsock⟩ := Option.ne_none_iff_exists'.mp hsome
    exact connect_failed_iff hsock h

/-- A TCP socket that cannot be bound, and a peer that refuses the connection. -/
theorem failed_calls_change_nothing_refused :
    let s := (new 1).step .socket
    let rst := Packet.bytes ⟨2, 1, ⟨80, 49152, 0, 1001, 0x50, tcpRst ||| tcpAck, 0, 0, 0⟩, []⟩
    (s.bind 1 1 7).1 = s ∧ (s.listen 2 80).1.SameAs s ∧
      (s.connect 1 0 1000 2 80 [⟨some rst, 0, 0, 0, 0⟩]).2.2 = some false ∧
      s.AbortedWhileDialing 1 0 1000 2 80 [⟨some rst, 0, 0, 0, 0⟩] := by
  intro s rst
  obtain ⟨-, -, -, -, -, hconnect⟩ := failed_calls_change_nothing s 1
  have hfalse : (s.connect 1 0 1000 2 80 [⟨some rst, 0, 0, 0, 0⟩]).2.2 = some false := by
    decide +kernel
  refine ⟨(failed_calls_change_nothing s 1).1 1 7 rfl, ?_, hfalse, ?_⟩
  · refine ((failed_calls_change_nothing s 2).2.2.2.2.1 80 rfl).mpr ?_
    rintro sock ⟨⟩
  · exact ((hconnect 0 1000 2 80 _ hfalse).2 (Option.some_ne_none _)).mp (by decide +kernel)

theorem rounds_idle {poll : Stack → Option α} {p : Pump} (hpoll : poll s = none)
    (hidle : s.pumpOnce p = (s, [])) (n : ℕ) :
    rounds poll n (List.replicate n p) s = (s, [], some none) := by
  induction n with
  | zero => rfl
  | succ n ih => rw [List.replicate_succ, rounds_of_none_cons hpoll, hidle, ih, List.nil_append]

/-- `listen` on the port of a connection fails and leaves the socket marked as a listener.
Three hundred stray packets within the first half second make `connect` fail and leave its
connection in SYN_SENT. -/
theorem exists_failed_call_changes :
    ∃ s s' : Stack, s.Reachable ∧ (s.listen 2 49152).2 = false ∧
      (s.socketOf 2).map Socket.isListener = some false ∧
      ((s.listen 2 49152).1.socketOf 2).map Socket.isListener = some true ∧
      s'.Reachable ∧ s'.tcp.lookup ⟨1, 49152, 2, 80⟩ = none ∧ ∃ pumps c,
        (s'.connect 1 0 1000 2 80 pumps).2.2 = some false ∧
        (s'.connect 1 0 1000 2 80 pumps).1.tcp.lookup ⟨1, 49152, 2, 80⟩ = some c ∧
        c.state = .synSent := by
  let synAck := Packet.bytes ⟨2, 1, ⟨80, 49152, 500, 1001, 80, tcpSyn ||| tcpAck, 1000, 0, 0⟩, []⟩
  let stray : Pump := ⟨some [0], 0, 0, 0, 0⟩
  let s' := (new 1).step .socket
  let s := (s'.step (.connect 1 0 1000 2 80 [⟨some synAck, 0, 0, 0, 0⟩])).step .socket
  have hsock : s'.socketOf 1 = some { kind := .tcp } := rfl
  obtain ⟨out, heq⟩ := connect_eq hsock 0 1000 2 80 (List.replicate 300 stray)
  have hpoll : connectPoll (s'.dialKey 2 80) (s'.dialing 1 0 1000 2 80) = none := by
    decide +kernel
  have hidle : (s'.dialing 1 0 1000 2 80).pumpOnce stray = (s'.dialing 1 0 1000 2 80, []) := by
    decide +kernel
  rw [rounds_idle hpoll hidle] at heq
  obtain ⟨c, hc, hst, -⟩ := lookup_dialing hsock 0 1000 2 80
  refine ⟨s, s', (((reachable_new 1).step _).step _).step _, by decide +kernel, by decide +kernel,
    by decide +kernel, (reachable_new 1).step _, rfl, List.replicate 300 stray, c, ?_, ?_, hst⟩
  · rw [heq]
    rfl
  · rw [heq]
    exact hc

end Stack

end MiniTcp
