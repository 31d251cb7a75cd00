import MiniTcp.Lib.Registry
import MiniTcp.Sockets.SocketMap

/-!
# Listening sockets

That somebody listens at an address is written down twice, in the socket and in the
listener set of the TCP table.  `listen` marks the socket whether or not the table takes
the address, and nothing ever takes an address out of the set: neither `close` nor a
second `listen` on the same socket.  The two agree exactly as long as no call does one of
these things to the only socket at an address.
-/

namespace MiniTcp

namespace TcpTable

variable {t : TcpTable}

theorem listeners_run_of_not_listen {es : List TableEvent}
    (h : ∀ e ∈ es, ∀ addr port reuseAddr, e ≠ .listen addr port reuseAddr) :
    (t.run es).listeners = t.listeners := by
  induction es generalizing t with
  | nil => rfl
  | cons e es ih =>
      rw [List.forall_mem_cons] at h
      exact (ih h.2).trans (listeners_step_of_not_listen h.1)

theorem not_mem_listeners_of_inUse {addr : UInt32} {port : UInt16} {reuseAddr : Bool}
    (h : t.addressInUse addr port reuseAddr = true) : (addr, port) ∉ t.listeners := by
  intro hmem
  rw [addressInUse, if_pos hmem] at h
  cases h

end TcpTable

namespace Stack

variable {s : Stack} {e : StackEvent} {id : SocketId}

/-- Where an open socket listens. -/
def listenAt (s : Stack) : SocketId → Option (UInt32 × UInt16) :=
  view (fun sock ↦ if sock.isListener then some (sock.listenAddr, sock.listenPort) else none) s

/-- The table listens where some open socket does. -/
def ListenersAgree (s : Stack) : Prop :=
  Registry.Covers s.listenAt {a | a ∈ s.tcp.listeners}

/-- The address of a `listen` is not in use, and a socket that listened somewhere else or
is closed is not the only one at its address. -/
def KeepsListeners (s : Stack) : StackEvent → Prop
  | .listen id port => ∀ sock, s.socketOf id = some sock →
      s.tcp.addressInUse s.selfAddr port sock.opts.reuseAddr = false ∧
        ∀ a, s.listenAt id = some a → a = (s.selfAddr, port) ∨ Registry.Besides s.listenAt id a
  | .close id _ _ => ∀ a, s.listenAt id = some a → Registry.Besides s.listenAt id a
  | _ => True

theorem not_listen_of_mem_calls (hne : ∀ id port, e ≠ .listen id port) {te : TableEvent}
    (h : te ∈ s.calls e) (addr : UInt32) (port : UInt16) (reuseAddr : Bool) :
    te ≠ .listen addr port reuseAddr := by
  rintro rfl
  have hmakes := makes_of_mem_calls h
  cases e with
  | listen id port => exact hne id port rfl
  | _ => cases hmakes

theorem listeners_step (he : e.Immediate) (hne : ∀ id port, e ≠ .listen id port) :
    (s.step e).tcp.listeners = s.tcp.listeners := by
  rw [step_tcp he]
  exact TcpTable.listeners_run_of_not_listen fun te hte ↦ not_listen_of_mem_calls hne hte

/-- Only `listen` and `close` change where sockets listen: a new socket does not. -/
theorem listenAt_step (hs : s.Fresh) (he : e.Immediate) (hlisten : ∀ id port, e ≠ .listen id port)
    (hclose : ∀ id now pumps, e ≠ .close id now pumps) : (s.step e).listenAt = s.listenAt := by
  refine view_step_of_edit hs he ?_
  intro old new hedit
  cases hedit with
  | listen => exact absurd rfl (hlisten _ _)
  | close => exact absurd rfl (hclose _ _ _)
  | _ => rfl

theorem listenAt_listen {sock : Socket} (hsock : s.socketOf id = some sock) (port : UInt16) :
    (s.step (.listen id port)).listenAt =
      Function.update s.listenAt id (some (s.selfAddr, port)) := by
  rw [listenAt, view_step (e := .listen id port) trivial, writes, hsock]
  rfl

theorem listenAt_close (s : Stack) (id : SocketId) (now : Instant) :
    (s.step (.close id now [])).listenAt = Function.update s.listenAt id none :=
  view_step rfl

theorem listeners_listen {sock : Socket} (hsock : s.socketOf id = some sock) (port : UInt16) :
    (s.step (.listen id port)).tcp.listeners =
      if s.tcp.addressInUse s.selfAddr port sock.opts.reuseAddr then s.tcp.listeners
      else insert (s.selfAddr, port) s.tcp.listeners := by
  rw [step_tcp (e := .listen id port) trivial, calls, hsock]
  simp only [TcpTable.run, List.foldl_cons, List.foldl_nil, TcpTable.step, TcpTable.listen]
  split_ifs <;> rfl

/-- A call keeps the two in agreement exactly under the condition above. -/
theorem listenersAgree_step_iff (hs : s.Fresh) (he : e.Immediate) (h : s.ListenersAgree) :
    (s.step e).ListenersAgree ↔ s.KeepsListeners e := by
  have hsame (hlisten : ∀ id port, e ≠ .listen id port)
      (hclose : ∀ id now pumps, e ≠ .close id now pumps) : (s.step e).ListenersAgree := by
    rw [ListenersAgree, listenAt_step hs he hlisten hclose, listeners_step he hlisten]
    exact h
  cases e with
  | listen id port =>
      cases hsock : s.socketOf id with
      | none =>
          have hstep : s.step (.listen id port) = s := by simp only [step, listen, hsock]
          rw [hstep]
          exact ⟨fun _ sock hsock' ↦ by simp [hsock] at hsock', fun _ ↦ h⟩
      | some sock =>
          rw [ListenersAgree, listenAt_listen hsock, listeners_listen hsock]
          cases huse : s.tcp.addressInUse s.selfAddr port sock.opts.reuseAddr with
          | true =>
              refine iff_of_false ?_ ?_
              · exact Registry.not_covers_claim (TcpTable.not_mem_listeners_of_inUse huse)
              · intro hkeeps
                have hfree := (hkeeps sock hsock).1
                rw [huse] at hfree
                cases hfree
          | false =>
              have hset : {a | a ∈ insert (s.selfAddr, port) s.tcp.listeners} =
                  insert (s.selfAddr, port) {a | a ∈ s.tcp.listeners} := by
                ext a
                simp
              rw [if_neg Bool.false_ne_true, hset, Registry.Covers.claim_iff h]
              constructor
              · intro hother sock' hsock'
                obtain rfl := Option.some.inj (hsock.symm.trans hsock')
                exact ⟨huse, hother⟩
              · intro hkeeps
                exact (hkeeps sock hsock).2
  | close id now pumps =>
      obtain rfl := he
      rw [ListenersAgree, listenAt_close, listeners_step (e := .close id now []) rfl (by simp)]
      exact Registry.Covers.release_iff h
  | _ => exact iff_of_true (hsame (by simp) (by simp)) trivial

/-- What a SYN meets at an address nobody listens at: the stack does not change, and the
answer is a RST. -/
def RefusesSyns (s : Stack) : Prop :=
  ∀ now iss buf ipHdr payload seg data,
    acceptedPacket buf = some (ipHdr, payload) → ipHdr.protocol = 6 →
    TcpTable.acceptedSegment ipHdr payload = some (seg, data) →
    hasFlag seg.flags tcpSyn → ¬ hasFlag seg.flags tcpRst →
    (∀ id, s.listenAt id ≠ some (ipHdr.dstAddr, seg.dstPort)) →
    s.tcp.lookup (TcpTable.segmentKey ipHdr seg) = none →
    ∃ m : Emission, m.IsReset ∧ s.dispatchIpPacket now iss buf = (s, [m.packet.bytes])

theorem ListenersAgree.refusesSyns (h : s.ListenersAgree) : s.RefusesSyns := by
  intro now iss buf ipHdr payload seg data hbuf htcp hseg _ hrst hnobody hnone
  refine ⟨TcpTable.sendRstForUnknown ipHdr seg data.length,
    TcpTable.isReset_sendRstForUnknown ipHdr seg data.length, ?_⟩
  have hlisten : (ipHdr.dstAddr, seg.dstPort) ∉ s.tcp.listeners := by
    intro hmem
    obtain ⟨id, hid⟩ := (h _).mp hmem
    exact hnobody id hid
  have hdemux : s.tcp.handleSegment now iss ipHdr payload =
      (s.tcp, [TcpTable.sendRstForUnknown ipHdr seg data.length]) := by
    simp only [TcpTable.handleSegment, hseg, TcpTable.demux, hnone]
    rw [if_neg fun hsyn ↦ hlisten hsyn.2.2, if_neg hrst]
  simp only [dispatchIpPacket, hbuf, handlePacket, htcp]
  rw [if_neg (by decide), if_neg (by decide), if_pos trivial, hdemux]
  rfl

/-- In every run whose calls keep the condition, an address is in the listener set exactly
if an open socket listens there, and a SYN to any other address is refused; every other
call breaks the agreement at once. -/
theorem listeners_agree (h : s.ReachableWhen KeepsListeners) :
    (∀ a, a ∈ s.tcp.listeners ↔ ∃ id, s.listenAt id = some a) ∧ s.RefusesSyns ∧
      ∀ e : StackEvent, e.Immediate → ((s.step e).ListenersAgree ↔ s.KeepsListeners e) := by
  have hagree : s.ListenersAgree := by
    refine (h.invariant (P := fun s ↦ s.Fresh ∧ s.ListenersAgree) ?_ ?_).2
    · intro selfAddr
      refine ⟨fun id _ ↦ rfl, fun a ↦ ?_⟩
      constructor
      · intro ha
        cases ha
      · rintro ⟨id, hid⟩
        cases hid
    · intro s e he hok hs
      exact ⟨hs.1.step he, (listenersAgree_step_iff hs.1 he hs.2).mpr hok⟩
  exact ⟨hagree, hagree.refusesSyns, fun e he ↦ listenersAgree_step_iff h.fresh he hagree⟩

/-- Two sockets that listen on port 80, the first of which is closed again. -/
def takeover : Stack :=
  (((((new 1).step .socket).step (.listen 1 80)).step .socket).step (.listen 2 80)).step
    (.close 1 0 [])

theorem listeners_agree_takeover :
    takeover.ReachableWhen KeepsListeners ∧ (1, 80) ∈ takeover.tcp.listeners ∧
      takeover.listenAt 1 = none ∧ takeover.listenAt 2 = some (1, 80) ∧ takeover.RefusesSyns := by
  have hreach : takeover.ReachableWhen KeepsListeners := by
    refine .tail _ (.tail _ (.tail _ (.tail _ (.tail _ (.start ⟨1, rfl⟩) ?_) ?_) ?_) ?_) ?_
    · exact ⟨trivial, trivial⟩
    · refine ⟨?_, trivial⟩
      intro sock hsock
      obtain rfl := Option.some.inj hsock
      exact ⟨by decide +kernel, by intro a ha; cases ha⟩
    · exact ⟨trivial, trivial⟩
    · refine ⟨?_, trivial⟩
      intro sock hsock
      obtain rfl := Option.some.inj hsock
      exact ⟨by decide +kernel, by intro a ha; cases ha⟩
    · refine ⟨?_, trivial⟩
      intro a ha
      obtain rfl := Option.some.inj ha
      exact ⟨2, by decide, by decide +kernel⟩
  obtain ⟨hiff, hrefuses, -⟩ := listeners_agree hreach
  have htwo : takeover.listenAt 2 = some (1, 80) := by decide +kernel
  exact ⟨hreach, (hiff (1, 80)).mpr ⟨2, htwo⟩, by decide +kernel, htwo, hrefuses⟩

/-- After the only listener is closed, the address stays in the set and a SYN still opens a
connection; and a socket that was refused the address counts as a listener. -/
theorem exists_listener_left :
    (∃ s : Stack, s.Reachable ∧ s.sockets = ∅ ∧ (1, 80) ∈ s.tcp.listeners ∧
        ∃ k, s.tcp.lookup k = none ∧
          ((s.step (.pump ⟨some openingSyn, 100, 0, 0, 0⟩)).tcp.lookup k).isSome) ∧
      ∃ (s : Stack) (id : SocketId) (port : UInt16), s.Reachable ∧
        (s.listen id port).2 = false ∧
        (s.step (.listen id port)).listenAt id = some (s.selfAddr, port) ∧
        (s.selfAddr, port) ∉ (s.step (.listen id port)).tcp.listeners := by
  constructor
  · refine ⟨(((new 1).step .socket).step (.listen 1 80)).step (.close 1 0 []),
      (((reachable_new 1).step _).step _).step _, by decide +kernel, by decide +kernel,
      ⟨1, 80, 2, 5000⟩, by decide +kernel, by decide +kernel⟩
  · refine ⟨(((new 1).step .socket).step (.connect 1 0 1000 2 5000 [])).step .socket, 2, 49152,
      (((reachable_new 1).step _).step _).step _, by decide +kernel, by decide +kernel,
      by decide +kernel⟩

end Stack

end MiniTcp
