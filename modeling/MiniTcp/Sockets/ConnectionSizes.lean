import MiniTcp.Sockets.Ownership
import MiniTcp.Tcp.Capacity

/-!
# The sizes of a TCP socket

`SO_RCVBUF` and `SO_SNDBUF` are kept in the options of a socket and again in the
connection it stands for.  `accept` gives the sizes of the listener to the connection and
the defaults to the new socket, so the two agree only if the listener has the defaults;
and a key that comes into use again while a socket still holds it brings the default
sizes with it.
-/

namespace MiniTcp

def SocketOptions.sizes (opts : SocketOptions) : ℕ × ℕ :=
  (opts.rcvbuf.getD defaultRecvBufferCap, opts.sndbuf.getD defaultSendBufferCap)

theorem SocketOptions.sizes_empty : SocketOptions.sizes {} = TcpConnection.defaultCaps := rfl

/-- The connection after the sizes of a socket, where it has some, were given to it. -/
def TcpConnection.resize (opts : SocketOptions) (c : TcpConnection) : TcpConnection :=
  { c with
    recvBufferCap := opts.rcvbuf.getD c.recvBufferCap
    sendPendingCap := opts.sndbuf.getD c.sendPendingCap }

theorem TcpConnection.caps_resize {c : TcpConnection} (opts : SocketOptions)
    (h : c.caps = defaultCaps) : (c.resize opts).caps = opts.sizes := by
  obtain ⟨hrecv, hsend⟩ := Prod.mk.inj h
  rw [caps, resize, SocketOptions.sizes, ← hrecv, ← hsend]

theorem TcpConnection.caps_resize_set {c : TcpConnection} {opts : SocketOptions} (opt : SockOpt)
    (h : c.caps = opts.sizes) :
    (c.resize (SocketOptions.set {} opt)).caps = (opts.set opt).sizes := by
  obtain ⟨hrecv, hsend⟩ := Prod.mk.inj h
  cases opt with
  | rcvTimeo d | reuseAddr v => exact h
  | rcvBuf v =>
      dsimp only [SocketOptions.set]
      split_ifs
      · exact h
      · exact congrArg (Prod.mk v) hsend
  | sndBuf v =>
      dsimp only [SocketOptions.set]
      split_ifs
      · exact h
      · exact congrArg (fun n ↦ (n, v)) hrecv

namespace TcpTable

variable {t : TcpTable} {key : ConnectionKey} {Want : ConnectionKey → ℕ × ℕ → Prop}

theorem lookup_capCalls (t : TcpTable) (key k : ConnectionKey) (opts : SocketOptions) :
    (t.run (Stack.capCalls key opts)).lookup k =
      if key = k then (t.lookup k).map fun c ↦ c.resize opts else t.lookup k := by
  obtain ⟨rcvtimeo, reuseAddr, rcvbuf, sndbuf⟩ := opts
  have hrecv (t : TcpTable) (v : ℕ) := t.lookup_withConnection key k fun c ↦ (c.setRecvCap v, [])
  have hsend (t : TcpTable) (v : ℕ) := t.lookup_withConnection key k fun c ↦ (c.setSendCap v, [])
  cases rcvbuf with
  | none =>
      cases sndbuf with
      | none =>
          have hid : (t.lookup k).map (TcpConnection.resize ⟨rcvtimeo, reuseAddr, none, none⟩) =
              t.lookup k := Option.map_id'
          exact ((if_congr Iff.rfl hid rfl).trans (ite_self _)).symm
      | some w => exact hsend t w
  | some v =>
      cases sndbuf with
      | none => exact hrecv t v
      | some w =>
          refine (hsend _ w).trans ?_
          rw [show (t.step (.setRecvCap key v)).1.lookup k = _ from hrecv t v]
          split_ifs
          · rw [Option.map_map]
            rfl
          · rfl

theorem waiting_capCalls (t : TcpTable) (key : ConnectionKey) (opts : SocketOptions) :
    (t.run (Stack.capCalls key opts)).waiting = t.waiting := by
  obtain ⟨rcvtimeo, reuseAddr, rcvbuf, sndbuf⟩ := opts
  cases rcvbuf with
  | none =>
      cases sndbuf with
      | none => rfl
      | some w => exact waiting_withConnection key _
  | some v =>
      cases sndbuf with
      | none => exact waiting_withConnection key _
      | some w => exact (waiting_withConnection key _).trans (waiting_withConnection key _)

/-- Giving sizes to a connection that nobody asks for, and asking for them from then on. -/
theorem Sized.resize {opts : SocketOptions} {x : ℕ × ℕ} (h : t.Sized Want)
    (hfree : ∀ y, ¬ Want key y) (hwait : key ∉ t.waiting)
    (hcaps : ∀ c, t.lookup key = some c → c.state ≠ .synRcvd ∧ (c.resize opts).caps = x) :
    (t.run (Stack.capCalls key opts)).Sized fun k y ↦ (k, y) = (key, x) ∨ Want k y := by
  have hwaiting := t.waiting_capCalls key opts
  have hother {k : ConnectionKey} {c : TcpConnection} (hne : key ≠ k)
      (hc : (t.run (Stack.capCalls key opts)).lookup k = some c) : t.lookup k = some c := by
    rwa [lookup_capCalls, if_neg hne] at hc
  have hself {c' : TcpConnection} (hc : (t.run (Stack.capCalls key opts)).lookup key = some c') :
      c'.state ≠ .synRcvd ∧ c'.caps = x := by
    rw [lookup_capCalls, if_pos rfl] at hc
    obtain ⟨c, hold, rfl⟩ := Option.map_eq_some_iff.mp hc
    exact hcaps c hold
  refine ⟨?_, ?_, ?_, ?_, ?_⟩
  · rw [hwaiting]
    exact h.nodup
  · intro k y hk
    rw [hwaiting] at hk
    rintro (heq | hw)
    · obtain ⟨rfl, -⟩ := Prod.mk.inj heq
      exact hwait hk
    · exact h.apart k y hk hw
  · intro k c hc hst
    by_cases hne : key = k
    · subst hne
      exact absurd hst (hself hc).1
    · obtain ⟨hk, hno, hdef⟩ := h.opening k c (hother hne hc) hst
      refine ⟨by rwa [hwaiting], ?_, hdef⟩
      rintro y (heq | hw)
      · exact hne (Prod.mk.inj heq).1.symm
      · exact hno y hw
  · intro k c hc hk
    rw [hwaiting] at hk
    refine h.queued k c (hother ?_ hc) hk
    rintro rfl
    exact hwait hk
  · intro k c y hc hw
    by_cases hne : key = k
    · subst hne
      rcases hw with heq | hw
      · rw [(hself hc).2, (Prod.mk.inj heq).2]
      · exact absurd hw (hfree y)
    · rcases hw with heq | hw
      · exact absurd (Prod.mk.inj heq).1.symm hne
      · exact h.agree k c y (hother hne hc) hw

end TcpTable

namespace Stack

variable {s : Stack} {e : StackEvent} {id : SocketId} {sock : Socket} {k : ConnectionKey}

/-- The connection an open TCP socket stands for, and the sizes the socket reports. -/
def tcpSizesOf (s : Stack) : SocketId → Option (ConnectionKey × ℕ × ℕ) :=
  view (fun sock ↦ if sock.kind = .tcp then sock.connKey.map fun k ↦ (k, sock.opts.sizes)
    else none) s

def Asks (s : Stack) (k : ConnectionKey) (x : ℕ × ℕ) : Prop := ∃ id, s.tcpSizesOf id = some (k, x)

theorem tcpSizesOf_eq (s : Stack) (id : SocketId) :
    s.tcpSizesOf id = (s.connKeyOf id).map fun k ↦ (k, s.getRcvbuf id, s.getSndbuf id) := by
  rw [tcpSizesOf, view, connKeyOf, getRcvbuf, getSndbuf]
  cases s.socketOf id with
  | none => rfl
  | some sock =>
      dsimp only [Option.bind_some]
      split_ifs
      · rfl
      · rfl

theorem asks_of_connKeyOf (h : s.connKeyOf id = some k) :
    s.Asks k (s.getRcvbuf id, s.getSndbuf id) :=
  ⟨id, by rw [tcpSizesOf_eq, h, Option.map_some]⟩

theorem connKeyOf_of_tcpSizesOf {x : ℕ × ℕ} (h : s.tcpSizesOf id = some (k, x)) :
    s.connKeyOf id = some k := by
  rw [tcpSizesOf_eq] at h
  obtain ⟨k', hk', heq⟩ := Option.map_eq_some_iff.mp h
  rw [hk', (Prod.mk.inj heq).1]

/-- No connection is opened under a key that a socket holds or that waits for one, and a
listener that accepts has the default sizes. -/
def KeepsTcpSizes (s : Stack) : StackEvent → Prop
  | .pump p => ∀ te ∈ pumpCalls p, ∀ k tr, te.opened s.tcp k = some tr →
      k ∉ s.tcp.waiting ∧ ∀ id, s.connKeyOf id ≠ some k
  | .accept listener _ _ => ∀ l key, s.acceptable listener = some (l, key) →
      l.opts.sizes = TcpConnection.defaultCaps
  | .connect id _ _ remoteAddr remotePort _ =>
      s.dialKey remoteAddr remotePort ∉ s.tcp.waiting ∧
        ¬ Registry.Besides s.connKeyOf id (s.dialKey remoteAddr remotePort)
  | _ => True

structure TcpSizes (s : Stack) : Prop where
  exclusive : Registry.Exclusive s.connKeyOf
  sized : s.tcp.Sized s.Asks

/-- What is asked for without the socket `id`. -/
theorem TcpSizes.besides (h : s.TcpSizes) (id : SocketId) :
    s.tcp.Sized fun k x ↦ Registry.Besides s.tcpSizesOf id (k, x) :=
  h.sized.anti fun _ _ ⟨j, _, hj⟩ ↦ ⟨j, hj⟩

theorem not_besides_tcpSizesOf (h : ¬ Registry.Besides s.connKeyOf id k) (x : ℕ × ℕ) :
    ¬ Registry.Besides s.tcpSizesOf id (k, x) := by
  rintro ⟨j, hne, hj⟩
  exact h ⟨j, hne, connKeyOf_of_tcpSizesOf hj⟩

theorem TcpSizes.accept (h : s.TcpSizes) {listener : SocketId} {start : Instant}
    (hok : s.KeepsTcpSizes (.accept listener start [])) :
    (s.step (.accept listener start [])).TcpSizes := by
  cases hacc : s.acceptable listener with
  | none =>
      rw [step_accept, hacc]
      exact h
  | some p =>
      obtain ⟨l, key⟩ := p
      have haccept : TableEvent.accepted s.tcp (.accept l.listenAddr l.listenPort) = some key :=
        accept_of_acceptable hacc
      have hwait := TcpTable.mem_waiting_of_accepted haccept
      have hfree : ¬ Registry.Besides s.connKeyOf s.nextSocketId key := by
        rintro ⟨j, -, hj⟩
        exact h.sized.apart key _ hwait (asks_of_connKeyOf hj)
      have hkeys : (s.step (.accept listener start [])).connKeyOf =
          Function.update s.connKeyOf s.nextSocketId (some key) := view_accept hacc start
      have hsizes : (s.step (.accept listener start [])).tcpSizesOf =
          Function.update s.tcpSizesOf s.nextSocketId (some (key, TcpConnection.defaultCaps)) := by
        rw [← SocketOptions.sizes_empty]
        exact view_accept hacc start
      have hstep : (s.tcp.step (.accept l.listenAddr l.listenPort)).1.Sized s.Asks := by
        refine h.sized.step not_false ?_
        intro k tr htr
        cases htr
      -- the key waited once, so it waits no longer
      have hgone : key ∉ (s.tcp.step (.accept l.listenAddr l.listenPort)).1.waiting :=
        (List.nodup_cons.mp ((TcpTable.waiting_accept haccept).nodup_iff.mp h.sized.nodup)).1
      have hcaps (c : TcpConnection)
          (hc : (s.tcp.step (.accept l.listenAddr l.listenPort)).1.lookup key = some c) :
          c.state ≠ .synRcvd ∧ (c.resize l.opts).caps = TcpConnection.defaultCaps := by
        rcases TcpTable.lookup_step hc with ⟨tr, htr, -⟩ | ⟨-, c, hold, rfl⟩
        · cases htr
        · refine ⟨fun hst ↦ (h.sized.opening key c hold hst).1 hwait, ?_⟩
          exact (c.caps_resize l.opts (h.sized.queued key c hold hwait)).trans (hok l key hacc)
      refine ⟨?_, ?_⟩
      · rw [hkeys]
        exact h.exclusive.claim hfree
      · rw [tcp_accept hacc]
        refine (hstep.resize (fun x hx ↦ h.sized.apart key x hwait hx) hgone hcaps).anti ?_
        intro k x hx
        rw [Asks, hsizes, Registry.exists_update_iff] at hx
        rcases hx with heq | ⟨j, -, hj⟩
        · exact .inl (Option.some.inj heq).symm
        · exact .inr ⟨j, hj⟩

theorem TcpSizes.connect (h : s.TcpSizes) {now : Instant} {iss remoteAddr : UInt32}
    {remotePort : UInt16} (hok : s.KeepsTcpSizes (.connect id now iss remoteAddr remotePort [])) :
    (s.step (.connect id now iss remoteAddr remotePort [])).TcpSizes := by
  cases hsock : s.socketOf id with
  | none =>
      rw [step_connect, hsock]
      exact h
  | some sock =>
      obtain ⟨hwait, hfree⟩ := hok
      have hopens {k : ConnectionKey} {tr : Track} (htr : TableEvent.opened s.tcp k
          (.connect now iss s.selfAddr remoteAddr remotePort) = some tr) :
          s.dialKey remoteAddr remotePort = k := (Option.ite_none_right_eq_some.mp htr).1
      have hstep : (s.tcp.step (.connect now iss s.selfAddr remoteAddr remotePort)).1.Sized
          fun k x ↦ Registry.Besides s.tcpSizesOf id (k, x) := by
        refine (h.besides id).step not_false ?_
        intro k tr htr
        obtain rfl := hopens htr
        exact ⟨hwait, not_besides_tcpSizesOf hfree⟩
      have hcaps (c : TcpConnection)
          (hc : (s.tcp.step (.connect now iss s.selfAddr remoteAddr remotePort)).1.lookup
            (s.dialKey remoteAddr remotePort) = some c) :
          c.state ≠ .synRcvd ∧ (c.resize sock.opts).caps = sock.opts.sizes := by
        rcases TcpTable.lookup_step hc with ⟨tr, htr, rfl⟩ | ⟨hno, -⟩
        · refine ⟨?_, TcpConnection.caps_resize _ (TcpTable.caps_of_opened htr)⟩
          obtain rfl := Option.some.inj (Option.ite_none_right_eq_some.mp htr).2
          exact TcpState.noConfusion
        · exact absurd ((if_pos rfl).symm.trans hno) (Option.some_ne_none _)
      have hasked := hstep.resize (not_besides_tcpSizesOf hfree) hwait hcaps
      refine ⟨?_, ?_⟩
      · have hkeys : (s.step (.connect id now iss remoteAddr remotePort [])).connKeyOf =
            Function.update s.connKeyOf id (if sock.kind = .tcp then
              some (s.dialKey remoteAddr remotePort) else none) :=
          view_connect hsock now iss remoteAddr remotePort
        rw [hkeys]
        split_ifs
        · exact h.exclusive.claim hfree
        · exact h.exclusive.release
      · have hsizes : (s.step (.connect id now iss remoteAddr remotePort [])).tcpSizesOf =
            Function.update s.tcpSizesOf id (if sock.kind = .tcp then
              some (s.dialKey remoteAddr remotePort, sock.opts.sizes) else none) :=
          view_connect hsock now iss remoteAddr remotePort
        rw [tcp_connect hsock]
        refine hasked.anti ?_
        intro k x hx
        rw [Asks, hsizes, Registry.exists_update_iff] at hx
        rcases hx with heq | hx
        · exact .inl (Option.some.inj (Option.ite_none_right_eq_some.mp heq).2).symm
        · exact .inr hx

theorem TcpSizes.same {s' : Stack} (h : s.TcpSizes) (hkeys : s'.connKeyOf = s.connKeyOf)
    (hsizes : s'.tcpSizesOf = s.tcpSizesOf) (htcp : s'.tcp.Sized s.Asks) : s'.TcpSizes := by
  refine ⟨?_, htcp.anti fun k x hx ↦ ?_⟩
  · rw [hkeys]
    exact h.exclusive
  · rw [Asks, hsizes] at hx
    exact hx

theorem TcpSizes.close (h : s.TcpSizes) (id : SocketId) (now : Instant) :
    (s.step (.close id now [])).TcpSizes := by
  have hkeys : (s.step (.close id now [])).connKeyOf = Function.update s.connKeyOf id none :=
    view_close s id now
  have hsizes : (s.step (.close id now [])).tcpSizesOf = Function.update s.tcpSizesOf id none :=
    view_close s id now
  have hsized : (s.step (.close id now [])).tcp.Sized s.Asks := by
    rw [step_tcp (e := .close id now []) rfl, calls]
    cases s.connKeyOf id with
    | none => exact h.sized
    | some key =>
        refine h.sized.step not_false ?_
        intro k tr htr
        cases htr
  refine ⟨?_, hsized.anti fun k x hx ↦ ?_⟩
  · rw [hkeys]
    exact h.exclusive.release
  · rw [Asks, hsizes, Registry.exists_update_iff] at hx
    rcases hx with heq | ⟨j, -, hj⟩
    · cases heq
    · exact ⟨j, hj⟩

theorem calls_setsockopt (s : Stack) (id : SocketId) (opt : SockOpt) :
    s.calls (.setsockopt id opt) =
      match s.connKeyOf id with
      | none => []
      | some key => capCalls key (SocketOptions.set {} opt) := by
  cases opt with
  | rcvTimeo d | reuseAddr v => cases s.connKeyOf id <;> rfl
  | rcvBuf v | sndBuf v =>
      simp only [calls, SocketOptions.set]
      split_ifs
      · cases s.connKeyOf id <;> rfl
      · rfl

theorem asks_setsockopt (hs : s.Fresh) (hsock : s.socketOf id = some sock) {opt : SockOpt}
    {x : ℕ × ℕ} (h : (s.step (.setsockopt id opt)).Asks k x) :
    s.connKeyOf id = some k ∧ x = (sock.opts.set opt).sizes ∨
      Registry.Besides s.tcpSizesOf id (k, x) := by
  have hkeys : (s.step (.setsockopt id opt)).connKeyOf = s.connKeyOf :=
    connKeyOf_step hs trivial (by simp) (by simp) (by simp)
  have hsizes : (s.step (.setsockopt id opt)).tcpSizesOf = Function.update s.tcpSizesOf id _ :=
    view_setsockopt hsock opt
  obtain ⟨j, hj⟩ := h
  have hkey := connKeyOf_of_tcpSizesOf hj
  rw [hkeys] at hkey
  rw [hsizes] at hj
  rcases Registry.update_eq_some hj with ⟨rfl, hnew⟩ | hold
  · obtain ⟨-, hnew⟩ := Option.ite_none_right_eq_some.mp hnew
    obtain ⟨k', -, heq⟩ := Option.map_eq_some_iff.mp hnew
    exact .inl ⟨hkey, (Prod.mk.inj heq).2.symm⟩
  · exact .inr ⟨j, hold⟩

theorem sizes_of_socketOf (hsock : s.socketOf id = some sock) :
    (s.getRcvbuf id, s.getSndbuf id) = sock.opts.sizes := by
  rw [getRcvbuf, getSndbuf, hsock]
  rfl

/-- A size that is set on a socket is set on its connection. -/
theorem TcpSizes.setsockopt (h : s.TcpSizes) (hs : s.Fresh) (id : SocketId) (opt : SockOpt) :
    (s.step (.setsockopt id opt)).TcpSizes := by
  have hkeys : (s.step (.setsockopt id opt)).connKeyOf = s.connKeyOf :=
    connKeyOf_step hs trivial (by simp) (by simp) (by simp)
  have hexclusive : Registry.Exclusive (s.step (.setsockopt id opt)).connKeyOf := by
    rw [hkeys]
    exact h.exclusive
  cases hsock : s.socketOf id with
  | none =>
      have hstep : s.step (.setsockopt id opt) = s := by simp only [step, Stack.setsockopt, hsock]
      rw [hstep]
      exact h
  | some sock =>
      have htcp := step_tcp (s := s) (e := .setsockopt id opt) trivial
      rw [calls_setsockopt] at htcp
      refine ⟨hexclusive, ?_⟩
      cases hkey : s.connKeyOf id with
      | none =>
          rw [hkey] at htcp
          rw [htcp]
          refine (h.besides id).anti fun k x hx ↦ ?_
          rcases asks_setsockopt hs hsock hx with ⟨hk, -⟩ | hx
          · rw [hkey] at hk
            cases hk
          · exact hx
      | some key =>
          have hasks := asks_of_connKeyOf hkey
          have hfree : ¬ Registry.Besides s.connKeyOf id key := by
            rintro ⟨j, hne, hj⟩
            exact hne (h.exclusive j id key hj hkey)
          have hcaps (c : TcpConnection) (hc : s.tcp.lookup key = some c) :
              c.state ≠ .synRcvd ∧
                (c.resize (SocketOptions.set {} opt)).caps = (sock.opts.set opt).sizes := by
            refine ⟨fun hst ↦ (h.sized.opening key c hc hst).2.1 _ hasks, ?_⟩
            refine TcpConnection.caps_resize_set opt ?_
            rw [h.sized.agree key c _ hc hasks, sizes_of_socketOf hsock]
          rw [hkey] at htcp
          rw [htcp]
          refine ((h.besides id).resize (not_besides_tcpSizesOf hfree)
            (fun hwait ↦ h.sized.apart key _ hwait hasks) hcaps).anti fun k x hx ↦ ?_
          rcases asks_setsockopt hs hsock hx with ⟨hk, rfl⟩ | hx
          · obtain rfl := Option.some.inj (hkey.symm.trans hk)
            exact .inl rfl
          · exact .inr hx

theorem tcpSizesOf_step (hs : s.Fresh) (he : e.Immediate)
    (haccept : ∀ listener start pumps, e ≠ .accept listener start pumps)
    (hconnect : ∀ id now iss addr port pumps, e ≠ .connect id now iss addr port pumps)
    (hclose : ∀ id now pumps, e ≠ .close id now pumps)
    (hset : ∀ id opt, e ≠ .setsockopt id opt) : (s.step e).tcpSizesOf = s.tcpSizesOf := by
  refine view_step_of_edit hs he ?_
  intro old new hedit
  cases hedit with
  | accept => exact absurd rfl (haccept _ _ _)
  | connect => exact absurd rfl (hconnect _ _ _ _ _ _)
  | close => exact absurd rfl (hclose _ _ _)
  | setsockopt => exact absurd rfl (hset _ _)
  | _ => rfl

theorem TcpSizes.step (h : s.TcpSizes) (hs : s.Fresh) (he : e.Immediate)
    (hok : s.KeepsTcpSizes e) : (s.step e).TcpSizes := by
  have hother {te : TableEvent} (hcap : ¬ te.SetsCap) (hopen : ∀ k, te.opened s.tcp k = none) :
      (s.tcp.step te).1.Sized s.Asks := by
    refine h.sized.step hcap fun k tr htr ↦ ?_
    rw [hopen] at htr
    cases htr
  have hsame (haccept : ∀ listener start pumps, e ≠ .accept listener start pumps)
      (hconnect : ∀ id now iss addr port pumps, e ≠ .connect id now iss addr port pumps)
      (hclose : ∀ id now pumps, e ≠ .close id now pumps)
      (hset : ∀ id opt, e ≠ .setsockopt id opt) (hsized : (s.tcp.run (s.calls e)).Sized s.Asks) :
      (s.step e).TcpSizes := by
    refine h.same (connKeyOf_step hs he haccept hconnect hclose)
      (tcpSizesOf_step hs he haccept hconnect hclose hset) ?_
    rw [step_tcp he]
    exact hsized
  cases e with
  | pump p =>
      refine hsame (by simp) (by simp) (by simp) (by simp) ?_
      rcases pumpCalls_cases p with hp | ⟨now, iss, ipHdr, payload, hp⟩
      · rw [calls, hp]
        exact hother not_false fun k ↦ rfl
      · have hsegment : (s.tcp.step (.segment now iss ipHdr payload)).1.Sized s.Asks := by
          refine h.sized.step not_false fun k tr htr ↦ ?_
          obtain ⟨hwait, hfree⟩ := hok _ (by rw [hp]; exact List.mem_cons_self) k tr htr
          refine ⟨hwait, ?_⟩
          rintro x ⟨id, hid⟩
          exact hfree id (connKeyOf_of_tcpSizesOf hid)
        rw [calls, hp]
        refine hsegment.step (e := .tick p.ticked) not_false fun k tr htr ↦ ?_
        cases htr
  | accept =>
      obtain rfl := he
      exact h.accept hok
  | connect =>
      obtain rfl := he
      exact h.connect hok
  | close id now =>
      obtain rfl := he
      exact h.close id now
  | setsockopt id opt => exact h.setsockopt hs id opt
  | listen | send | recv =>
      refine hsame (by simp) (by simp) (by simp) (by simp) ?_
      simp only [calls]
      split
      · exact h.sized
      · exact hother not_false fun k ↦ rfl
  | socket | udpSocket | bind | sendto | recvfrom =>
      exact hsame (by simp) (by simp) (by simp) (by simp) h.sized

end Stack

end MiniTcp
