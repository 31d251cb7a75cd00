import MiniTcp.Sockets.Bindings
import MiniTcp.Sockets.ConnectionSizes

/-!
# Buffer sizes

A UDP socket keeps `SO_RCVBUF` in its options and again in its binding.  Without
`SO_REUSEADDR` the two differ only after a `sendto` that picks a bound address; with the
condition on TCP sockets this says which runs keep what sockets report and what the
protocols use the same.
-/

namespace MiniTcp

namespace Stack

variable {s : Stack} {e : StackEvent} {id : SocketId} {sock : Socket}

/-- The address an open UDP socket is bound to, and the size the socket reports. -/
def udpSizesOf (s : Stack) : SocketId → Option ((UInt32 × UInt16) × ℕ) :=
  view (fun sock ↦ if sock.kind = .udp then
    sock.udpKey.map fun key ↦ (key, sock.opts.rcvbuf.getD defaultRecvQueueCapBytes) else none) s

theorem udpSizesOf_eq (s : Stack) (id : SocketId) :
    s.udpSizesOf id = (s.udpKeyOf id).map fun key ↦ (key, s.getRcvbuf id) := by
  rw [udpSizesOf, udpKeyOf, view, view, getRcvbuf]
  cases s.socketOf id with
  | none => rfl
  | some sock =>
      dsimp only [Option.bind_some]
      split_ifs
      · rfl
      · rfl

theorem udpKeyOf_eq (s : Stack) : s.udpKeyOf = Option.map Prod.fst ∘ s.udpSizesOf := by
  funext id
  rw [Function.comp_apply, udpSizesOf_eq, Option.map_map]
  exact Option.map_id'.symm

/-- The port an unbound socket sends from is free. -/
def KeepsUdpSizes (s : Stack) : StackEvent → Prop
  | .sendto id _ _ _ => ∀ sock, s.socketOf id = some sock → sock.kind = .udp →
      sock.udpKey = none → s.udp.isBound s.ephemeralKey = false
  | _ => True

structure UdpSizes (s : Stack) : Prop where
  exclusive : Registry.Exclusive s.udpKeyOf
  sized : ∀ id key cap, s.udpSizesOf id = some (key, cap) → s.udp.capOf key = some cap

variable {s' : Stack} {key : UInt32 × UInt16} {cap : ℕ}

theorem UdpSizes.isBound (h : s.UdpSizes) (hkey : s.udpKeyOf id = some key) :
    s.udp.isBound key = true := by
  have hsize : s.udpSizesOf id = some (key, s.getRcvbuf id) := by
    rw [udpSizesOf_eq, hkey, Option.map_some]
  rw [UdpTable.isBound_eq, h.sized id key _ hsize, Option.isSome_some]

theorem UdpSizes.not_besides (h : s.UdpSizes) (hfree : s.udp.isBound key = false)
    (id : SocketId) : ¬ Registry.Besides s.udpKeyOf id key := by
  rintro ⟨j, -, hj⟩
  rw [h.isBound hj] at hfree
  cases hfree

theorem UdpSizes.same (h : s.UdpSizes) (hsizes : s'.udpSizesOf = s.udpSizesOf)
    (hcaps : s'.udp.capOf = s.udp.capOf) : s'.UdpSizes := by
  constructor
  · rw [udpKeyOf_eq, hsizes, ← udpKeyOf_eq]
    exact h.exclusive
  · rw [hsizes, hcaps]
    exact h.sized

/-- A socket takes an address, or a size for the one it has, and nobody else has it. -/
theorem UdpSizes.claim (h : s.UdpSizes) (hfree : ¬ Registry.Besides s.udpKeyOf id key)
    (hsizes : s'.udpSizesOf = Function.update s.udpSizesOf id (some (key, cap)))
    (hcaps : s'.udp.capOf = Function.update s.udp.capOf key (some cap)) : s'.UdpSizes := by
  constructor
  · rw [udpKeyOf_eq, hsizes, Function.comp_update, ← udpKeyOf_eq]
    exact h.exclusive.claim hfree
  · intro j key' cap' hj
    rw [hsizes] at hj
    rw [hcaps]
    rcases Registry.update_eq_some hj with ⟨-, heq⟩ | ⟨hne, hold⟩
    · obtain ⟨rfl, rfl⟩ := Prod.mk.inj (Option.some.inj heq)
      exact Function.update_self ..
    · have hkey : s.udpKeyOf j = some key' := by
        rw [udpKeyOf_eq, Function.comp_apply, hold, Option.map_some]
      rw [Function.update_of_ne]
      · exact h.sized j key' cap' hold
      · rintro rfl
        exact hfree ⟨j, hne, hkey⟩

theorem UdpSizes.close (h : s.UdpSizes) (id : SocketId) (now : Instant) :
    (s.step (.close id now [])).UdpSizes := by
  have hsizes : (s.step (.close id now [])).udpSizesOf = Function.update s.udpSizesOf id none :=
    view_close s id now
  have hudp := step_close_udp s id now
  cases hid : s.udpKeyOf id with
  | none =>
      rw [hid] at hudp
      refine h.same (hsizes.trans ?_) (congrArg UdpTable.capOf hudp)
      have hnone : s.udpSizesOf id = none := by rw [udpSizesOf_eq, hid, Option.map_none]
      rw [← hnone, Function.update_eq_self]
  | some key =>
      rw [hid] at hudp
      have hcaps := (congrArg UdpTable.capOf hudp).trans (s.udp.capOf_unbind key)
      constructor
      · rw [udpKeyOf_eq, hsizes, Function.comp_update, ← udpKeyOf_eq]
        exact h.exclusive.release
      · intro j key' cap hj
        rw [hsizes] at hj
        rw [hcaps]
        rcases Registry.update_eq_some hj with ⟨-, hnone⟩ | ⟨hne, hold⟩
        · cases hnone
        · have hkey : s.udpKeyOf j = some key' := by
            rw [udpKeyOf_eq, Function.comp_apply, hold, Option.map_some]
          rw [Function.update_of_ne]
          · exact h.sized j key' cap hold
          · rintro rfl
            exact hne (h.exclusive j id key' hkey hid)

theorem UdpSizes.bind (h : s.UdpSizes) (hno : s.NoReuse) (id : SocketId) (addr : UInt32)
    (port : UInt16) : (s.step (.bind id addr port)).UdpSizes := by
  by_cases hudp : ∃ sock, s.socketOf id = some sock ∧ sock.kind = .udp
  · obtain ⟨sock, hsock, hkind⟩ := hudp
    have hreuse := hno id sock hsock
    have hsizes : (s.step (.bind id addr port)).udpSizesOf = _ :=
      view_bind hsock hkind hreuse addr port
    have hcaps := capOf_bindResult_of_noReuse (s := s) hreuse (s.bindKey addr port)
    rw [← step_bind_udp hsock hkind] at hcaps
    cases hbound : s.udp.isBound (s.bindKey addr port) with
    | true =>
        rw [hbound, if_pos rfl] at hsizes hcaps
        exact h.same hsizes hcaps
    | false =>
        rw [hbound, if_neg Bool.false_ne_true] at hsizes hcaps
        dsimp only at hsizes
        rw [if_pos hkind] at hsizes
        exact h.claim (h.not_besides hbound id) hsizes hcaps
  · rw [step_bind_of_not_udp hudp]
    exact h

theorem UdpSizes.sendto (h : s.UdpSizes) (hno : s.NoReuse) {data : Bytes} {dstAddr : UInt32}
    {dstPort : UInt16} (hok : s.KeepsUdpSizes (.sendto id data dstAddr dstPort)) :
    (s.step (.sendto id data dstAddr dstPort)).UdpSizes := by
  by_cases hunbound : ∃ sock, s.socketOf id = some sock ∧ sock.kind = .udp ∧ sock.udpKey = none
  · obtain ⟨sock, hsock, hunbound⟩ := hunbound
    have hbound := hok sock hsock hunbound.1 hunbound.2
    have hsizes : (s.step (.sendto id data dstAddr dstPort)).udpSizesOf =
        Function.update s.udpSizesOf id _ := view_sendto hsock hunbound data dstAddr dstPort
    have hcaps := capOf_sendto hsock hunbound (hno id sock hsock) data dstAddr dstPort
    rw [hbound, if_neg Bool.false_ne_true] at hcaps
    dsimp only at hsizes
    rw [if_pos hunbound.1] at hsizes
    exact h.claim (h.not_besides hbound id) hsizes hcaps
  · rw [step_sendto_of_not_unbound hunbound]
    exact h

theorem udpSizesOf_setsockopt (hsock : s.socketOf id = some sock) (opt : SockOpt) :
    (s.step (.setsockopt id opt)).udpSizesOf = Function.update s.udpSizesOf id
      ((s.udpKeyOf id).map fun key ↦
        (key, (sock.opts.set opt).rcvbuf.getD defaultRecvQueueCapBytes)) := by
  refine (view_setsockopt hsock opt).trans ?_
  rw [udpKeyOf, view, hsock, Option.bind_some]
  dsimp only
  split_ifs
  · rfl
  · rfl

theorem UdpSizes.setsockopt (h : s.UdpSizes) (id : SocketId) (opt : SockOpt) :
    (s.step (.setsockopt id opt)).UdpSizes := by
  cases hsock : s.socketOf id with
  | none =>
      have hstep : s.step (.setsockopt id opt) = s := by simp only [step, Stack.setsockopt, hsock]
      rw [hstep]
      exact h
  | some sock =>
      have hsizes := udpSizesOf_setsockopt hsock opt
      have hudp := step_setsockopt_udp s id opt
      -- every option but a receive size leaves both alone
      have hsame (hset : (sock.opts.set opt).rcvbuf = sock.opts.rcvbuf)
          (hudp : (s.step (.setsockopt id opt)).udp = s.udp) :
          (s.step (.setsockopt id opt)).UdpSizes := by
        refine h.same (hsizes.trans ?_) (congrArg UdpTable.capOf hudp)
        have hold : s.udpSizesOf id = (s.udpKeyOf id).map fun key ↦
            (key, sock.opts.rcvbuf.getD defaultRecvQueueCapBytes) := by
          rw [udpSizesOf_eq, getRcvbuf, hsock]
          rfl
        rw [hset, ← hold, Function.update_eq_self]
      cases opt with
      | rcvTimeo d | reuseAddr v => exact hsame rfl hudp
      | sndBuf v =>
          refine hsame ?_ hudp
          dsimp only [SocketOptions.set]
          split_ifs
          · rfl
          · rfl
      | rcvBuf v =>
          dsimp only [SocketOptions.set] at hsizes hsame hudp
          by_cases hv : v = 0
          · rw [if_pos hv] at hudp hsame
            exact hsame rfl hudp
          · rw [if_neg hv] at hudp hsizes
            cases hid : s.udpKeyOf id with
            | none =>
                rw [hid] at hudp hsizes
                refine h.same (hsizes.trans ?_) (congrArg UdpTable.capOf hudp)
                have hnone : s.udpSizesOf id = none := by rw [udpSizesOf_eq, hid, Option.map_none]
                rw [Option.map_none, ← hnone, Function.update_eq_self]
            | some key =>
                rw [hid] at hudp hsizes
                have hcaps := (congrArg UdpTable.capOf hudp).trans (s.udp.capOf_setRecvCap key v)
                rw [if_pos (h.isBound hid)] at hcaps
                refine h.claim ?_ hsizes hcaps
                rintro ⟨j, hne, hj⟩
                exact hne (h.exclusive j id key hj hid)

theorem UdpSizes.step (h : s.UdpSizes) (hs : s.Fresh) (hno : s.NoReuse) (he : e.Immediate)
    (hok : s.KeepsUdpSizes e) : (s.step e).UdpSizes := by
  cases e with
  | bind id addr port => exact h.bind hno id addr port
  | sendto => exact h.sendto hno hok
  | close id now =>
      obtain rfl := he
      exact h.close id now
  | setsockopt id opt => exact h.setsockopt id opt
  | _ =>
      refine h.same ?_ (capOf_step he (by simp) (by simp) (by simp) (by simp))
      refine view_step_of_edit hs he fun old new hedit ↦ ?_
      cases hedit <;> rfl

/-! ## Every run -/

theorem ReachableWhen.tcpSizes (h : s.ReachableWhen KeepsTcpSizes) : s.TcpSizes := by
  refine (h.invariant (P := fun s ↦ s.Fresh ∧ s.TcpSizes) ?_ ?_).2
  · intro selfAddr
    refine ⟨fun id _ ↦ rfl, ?_, List.nodup_nil, ?_, ?_, ?_, ?_⟩
    · intro id id' k hid
      cases hid
    · intro k x hk
      cases hk
    · intro k c hc
      cases hc
    · intro k c hc
      cases hc
    · intro k c x hc
      cases hc
  · intro s e he hok hs
    exact ⟨hs.1.step he, hs.2.step hs.1 he hok⟩

theorem ReachableWhen.udpSizes
    (h : s.ReachableWhen fun s e ↦ e.NoReuse ∧ s.KeepsUdpSizes e) : s.UdpSizes := by
  refine (h.invariant (P := fun s ↦ (s.Fresh ∧ s.NoReuse) ∧ s.UdpSizes) ?_ ?_).2
  · intro selfAddr
    refine ⟨⟨fun id _ ↦ rfl, fun id sock hsock ↦ ?_⟩, ?_, ?_⟩
    · cases hsock
    · intro id id' key hid
      cases hid
    · intro id key cap hid
      cases hid
  · rintro s e he ⟨hreuse, hok⟩ ⟨⟨hs, hno⟩, hsizes⟩
    exact ⟨⟨hs.step he, hno.step hs he hreuse⟩, hsizes.step hs hno he hok⟩

/-- In every run whose calls keep the two conditions, a socket reports the sizes its
connection has, and without `SO_REUSEADDR` the size its binding has. -/
theorem buffer_sizes_agree :
    (s.ReachableWhen KeepsTcpSizes → ∀ id k c, s.connKeyOf id = some k →
        s.tcp.lookup k = some c →
          s.getRcvbuf id = c.recvBufferCap ∧ s.getSndbuf id = c.sendPendingCap) ∧
      (s.ReachableWhen (fun s e ↦ e.NoReuse ∧ s.KeepsUdpSizes e) → ∀ id key,
        s.udpKeyOf id = some key →
          ∃ b, s.udp.binding key = some b ∧ s.getRcvbuf id = b.recvQueueCapBytes) := by
  refine ⟨fun h id k c hid hc ↦ ?_, fun h id key hid ↦ ?_⟩
  · obtain ⟨hrecv, hsend⟩ :=
      Prod.mk.inj (h.tcpSizes.sized.agree k c _ hc (asks_of_connKeyOf hid))
    exact ⟨hrecv.symm, hsend.symm⟩
  · have hsize : s.udpSizesOf id = some (key, s.getRcvbuf id) := by
      rw [udpSizesOf_eq, hid, Option.map_some]
    obtain ⟨b, hb, hcap⟩ := Option.map_eq_some_iff.mp (h.udpSizes.sized id key _ hsize)
    exact ⟨b, hb, hcap.symm⟩

/-- An accepted connection and a bound socket with sizes of their own. -/
def resized : Stack :=
  (((((listening.step (.pump ⟨some openingAck, 0, 0, 0, 0⟩)).step (.accept 1 0 [])).step
    (.setsockopt 2 (.rcvBuf 10))).step .udpSocket).step (.setsockopt 3 (.rcvBuf 20))).step
      (.bind 3 0 7)

theorem buffer_sizes_agree_resized :
    resized.ReachableWhen KeepsTcpSizes ∧
      resized.ReachableWhen (fun s e ↦ e.NoReuse ∧ s.KeepsUdpSizes e) ∧
      (∃ k c, resized.connKeyOf 2 = some k ∧ resized.tcp.lookup k = some c ∧
        resized.getRcvbuf 2 = 10 ∧ c.recvBufferCap = 10) ∧
      ∃ b, resized.udp.binding (1, 7) = some b ∧ b.recvQueueCapBytes = 20 := by
  -- nothing is held before the first `accept`
  have hidle {s : Stack} {p : Pump} (hs : s.Fresh) (hwait : s.tcp.waiting = [])
      (hkeys : ∀ id < s.nextSocketId, s.connKeyOf id = none) : s.KeepsTcpSizes (.pump p) := by
    intro te _ k tr _
    rw [hwait]
    refine ⟨List.not_mem_nil, hs.view_ne fun id hid ↦ ?_⟩
    rw [show view _ s id = none from hkeys id hid]
    exact (Option.some_ne_none k).symm
  have hlisten : (((new 1).step .socket).step (.listen 1 80)).ReachableWhen KeepsTcpSizes :=
    .tail _ (.tail _ (.start ⟨1, rfl⟩) ⟨trivial, trivial⟩) ⟨trivial, trivial⟩
  have hsyn : listening.ReachableWhen KeepsTcpSizes :=
    .tail _ hlisten ⟨hidle hlisten.fresh (by decide +kernel) (by decide +kernel), trivial⟩
  have htcp : resized.ReachableWhen KeepsTcpSizes := by
    refine .tail _ (.tail _ (.tail _ (.tail _ (.tail _ (.tail _ hsyn ⟨?_, trivial⟩)
      ⟨?_, trivial⟩) ?_) ?_) ?_) ?_
    · exact hidle hsyn.fresh (by decide +kernel) (by decide +kernel)
    · intro l key hacc
      obtain rfl := congrArg Prod.fst (Option.some.inj (hacc.symm.trans (by decide +kernel :
        _ = some ((⟨.tcp, none, true, 1, 80, none, {}⟩ : Socket),
          (⟨1, 80, 2, 5000⟩ : ConnectionKey)))))
      exact SocketOptions.sizes_empty
    all_goals exact ⟨trivial, trivial⟩
  have hudp : resized.ReachableWhen fun s e ↦ e.NoReuse ∧ s.KeepsUdpSizes e := by
    refine .tail _ (.tail _ (.tail _ (.tail _ (.tail _ (.tail _ (.tail _ (.tail _ (.tail _
      (.start ⟨1, rfl⟩) ?_) ?_) ?_) ?_) ?_) ?_) ?_) ?_) ?_ <;>
      exact ⟨⟨trivial, trivial⟩, trivial⟩
  have hkey : resized.connKeyOf 2 = some ⟨1, 80, 2, 5000⟩ := by decide +kernel
  have hrcvbuf : resized.getRcvbuf 2 = 10 := by decide +kernel
  have hbind : resized.udpKeyOf 3 = some (1, 7) := by decide +kernel
  have hsize : resized.getRcvbuf 3 = 20 := by decide +kernel
  have hopen : (resized.tcp.lookup ⟨1, 80, 2, 5000⟩).isSome = true := by decide +kernel
  obtain ⟨c, hc⟩ := Option.isSome_iff_exists.mp hopen
  obtain ⟨hrecv, -⟩ := buffer_sizes_agree.1 htcp 2 _ c hkey hc
  obtain ⟨b, hb, hcap⟩ := buffer_sizes_agree.2 hudp 3 (1, 7) hbind
  exact ⟨htcp, hudp, ⟨_, c, hkey, hc, hrcvbuf, hrecv.symm.trans hrcvbuf⟩,
    b, hb, hcap.symm.trans hsize⟩

/-- The RST that ends the connection of `serving`. -/
def closingRst : Bytes :=
  Packet.bytes ⟨2, 1, ⟨5000, 80, 8, 0, 0x50, tcpRst, 0, 0, 0⟩, []⟩

/-- The connection of an accepted socket has the sizes of the listener, of which the socket
knows nothing; a connection opened again under the key of a socket has the default sizes,
whatever the socket was told; and a socket whose `sendto` picks a bound address has the
size of a binding that is not its own. -/
theorem exists_buffer_sizes_differ :
    (∃ (s : Stack) (k : ConnectionKey), s.Reachable ∧ s.connKeyOf 2 = some k ∧
        s.getRcvbuf 2 = 65536 ∧ (s.tcp.lookup k).map TcpConnection.recvBufferCap = some 10 ∧
        s.getSndbuf 2 = 2 ^ 20 ∧ (s.tcp.lookup k).map TcpConnection.sendPendingCap = some 20) ∧
      (∃ (s : Stack) (k : ConnectionKey), s.Reachable ∧ s.connKeyOf 2 = some k ∧
        s.getRcvbuf 2 = 10 ∧ (s.tcp.lookup k).map TcpConnection.recvBufferCap = some 65536) ∧
      ∃ (s : Stack) (key : UInt32 × UInt16), s.ReachableWhen (fun _ e ↦ e.NoReuse) ∧
        s.udpKeyOf 2 = some key ∧ s.getRcvbuf 2 = 65536 ∧
        (s.udp.binding key).map UdpBinding.recvQueueCapBytes = some 10 := by
  refine ⟨?_, ?_, ?_⟩
  · have hreach : ((((listening.step (.setsockopt 1 (.rcvBuf 10))).step
        (.setsockopt 1 (.sndBuf 20))).step (.pump ⟨some openingAck, 0, 0, 0, 0⟩)).step
          (.accept 1 0 [])).Reachable := (((reachable_listening.step _).step _).step _).step _
    exact ⟨_, ⟨1, 80, 2, 5000⟩, hreach, by decide +kernel, by decide +kernel, by decide +kernel,
      by decide +kernel, by decide +kernel⟩
  · have hreach : (((((listening.step (.pump ⟨some openingAck, 0, 0, 0, 0⟩)).step
        (.accept 1 0 [])).step (.setsockopt 2 (.rcvBuf 10))).step
          (.pump ⟨some closingRst, 0, 0, 0, 0⟩)).step
            (.pump ⟨some openingSyn, 100, 0, 0, 0⟩)).Reachable :=
      ((((reachable_listening.step _).step _).step _).step _).step _
    exact ⟨_, ⟨1, 80, 2, 5000⟩, hreach, by decide +kernel, by decide +kernel, by decide +kernel⟩
  · refine ⟨(((((new 1).step .udpSocket).step (.setsockopt 1 (.rcvBuf 10))).step
      (.bind 1 1 51000)).step .udpSocket).step (.sendto 2 [1] 2 7), (1, 51000), ?_,
      by decide +kernel, by decide +kernel, by decide +kernel⟩
    refine .tail _ (.tail _ (.tail _ (.tail _ (.tail _ (.start ⟨1, rfl⟩) ?_) ?_) ?_) ?_) ?_ <;>
      exact ⟨trivial, trivial⟩

end Stack

end MiniTcp
