import MiniTcp.StackRun

/-!
# The socket map

A call that does not wait writes at most one entry of the socket map.  Identifiers
are handed out in order, so an entry for a new socket never replaces one.
-/

namespace MiniTcp

def SocketOptions.set (opts : SocketOptions) : SockOpt → SocketOptions
  | .rcvTimeo d => { opts with rcvtimeo := if d = 0 then none else some d }
  | .reuseAddr v => { opts with reuseAddr := v }
  | .rcvBuf v => if v = 0 then opts else { opts with rcvbuf := some v }
  | .sndBuf v => if v = 0 then opts else { opts with sndbuf := some v }

namespace Stack

variable {s : Stack} {e : StackEvent}

def bindKey (s : Stack) (addr : UInt32) (port : UInt16) : UInt32 × UInt16 :=
  (if addr = 0 then s.selfAddr else addr, port)

def ephemeralKey (s : Stack) : UInt32 × UInt16 := (s.selfAddr, s.nextUdpEphemeralPort)

/-- The entry a call writes, and what it holds then. -/
def writes (s : Stack) : StackEvent → Option (SocketId × Option Socket)
  | .socket => some (s.nextSocketId, some { kind := .tcp })
  | .udpSocket => some (s.nextSocketId, some { kind := .udp })
  | .listen id port =>
      (s.socketOf id).map fun sock ↦
        (id, some { sock with isListener := true, listenAddr := s.selfAddr, listenPort := port })
  | .accept listener _ _ =>
      (s.acceptable listener).map fun p ↦
        (s.nextSocketId, some { kind := .tcp, connKey := some p.2 })
  | .connect id _ _ remoteAddr remotePort _ =>
      (s.socketOf id).map fun sock ↦
        (id, some { sock with connKey := some (s.dialKey remoteAddr remotePort) })
  | .close id _ _ => some (id, none)
  | .bind id addr port =>
      match s.socketOf id with
      | none => none
      | some sock =>
          if sock.kind = .udp ∧
              (s.udp.isBound (s.bindKey addr port) = false ∨ sock.opts.reuseAddr) then
            some (id, some { sock with udpKey := some (s.bindKey addr port) })
          else none
  | .sendto id _ _ _ =>
      match s.socketOf id with
      | none => none
      | some sock =>
          if sock.kind = .udp ∧ sock.udpKey = none then
            some (id, some { sock with udpKey := some s.ephemeralKey })
          else none
  | .setsockopt id opt =>
      (s.socketOf id).map fun sock ↦ (id, some { sock with opts := sock.opts.set opt })
  | .pump _ | .send .. | .recv .. | .recvfrom .. => none

def written (s : Stack) (e : StackEvent) : SocketId → Option Socket :=
  match s.writes e with
  | none => s.socketOf
  | some (id, entry) => Function.update s.socketOf id entry

theorem socketOf_setSocket (s : Stack) (id : SocketId) (sock : Socket) :
    (s.setSocket id sock).socketOf = Function.update s.socketOf id (some sock) := by
  funext id'
  rw [socketOf, setSocket, AssocMap.lookup_insert_eq, Function.update_apply]
  rfl

theorem socketOf_eq_of_sockets {s' : Stack} (h : s'.sockets = s.sockets) :
    s'.socketOf = s.socketOf := by
  funext id
  rw [socketOf, h, socketOf]

theorem socketOf_close (s : Stack) (id : SocketId) (now : Instant) :
    (s.step (.close id now [])).socketOf = Function.update s.socketOf id none := by
  funext id'
  rw [step_close, socketOf, AssocMap.lookup_erase_eq, Function.update_apply]
  rfl

/-- What `bind` does to the UDP table, and whether it succeeds. -/
def bindResult (s : Stack) (sock : Socket) (key : UInt32 × UInt16) : UdpTable × Bool :=
  s.udp.bind key.1 key.2 sock.opts.reuseAddr (sock.opts.rcvbuf.getD defaultRecvQueueCapBytes)

theorem bindResult_snd (s : Stack) (sock : Socket) (key : UInt32 × UInt16) :
    (s.bindResult sock key).2 = true ↔
      s.udp.isBound key = false ∨ sock.opts.reuseAddr = true := by
  unfold bindResult UdpTable.bind
  cases s.udp.isBound key <;> cases sock.opts.reuseAddr <;> simp

theorem bind_of_udp {id : SocketId} {sock : Socket} (hsock : s.socketOf id = some sock)
    (hkind : sock.kind = .udp) (addr : UInt32) (port : UInt16) :
    (s.bind id addr port).1 =
      if (s.bindResult sock (s.bindKey addr port)).2 then
        { s with udp := (s.bindResult sock (s.bindKey addr port)).1 }.setSocket id
          { sock with udpKey := some (s.bindKey addr port) }
      else { s with udp := (s.bindResult sock (s.bindKey addr port)).1 } := by
  simp only [bind, hsock]
  rw [if_neg (not_not.mpr hkind)]
  rfl

theorem socketOf_bind {id : SocketId} {sock : Socket} (hsock : s.socketOf id = some sock)
    (addr : UInt32) (port : UInt16) :
    (s.bind id addr port).1.socketOf = s.written (.bind id addr port) := by
  simp only [written, writes, hsock]
  by_cases hkind : sock.kind = .udp
  · have hok := s.bindResult_snd sock (s.bindKey addr port)
    rw [bind_of_udp hsock hkind]
    by_cases hbind : s.udp.isBound (s.bindKey addr port) = false ∨ sock.opts.reuseAddr = true
    · rw [if_pos (hok.mpr hbind), if_pos ⟨hkind, hbind⟩]
      exact socketOf_setSocket ..
    · rw [if_neg fun h ↦ hbind (hok.mp h), if_neg fun h ↦ hbind h.2]
      rfl
  · rw [if_neg fun h ↦ hkind h.1]
    simp only [bind, hsock]
    rw [if_pos hkind]

theorem sendto_of_unbound {id : SocketId} {sock : Socket} (hsock : s.socketOf id = some sock)
    (h : sock.kind = .udp ∧ sock.udpKey = none) (data : Bytes) (dstAddr : UInt32)
    (dstPort : UInt16) :
    (s.sendto id data dstAddr dstPort).1 =
      { s with
        nextUdpEphemeralPort := s.nextUdpEphemeralPort + 1
        udp := (s.bindResult sock s.ephemeralKey).1 }.setSocket id
          { sock with udpKey := some s.ephemeralKey } := by
  simp only [sendto, sendtoKey, hsock, h.2]
  rw [if_neg (not_not.mpr h.1)]
  rfl

theorem step_sendto_of_not_unbound {id : SocketId}
    (h : ¬ ∃ sock, s.socketOf id = some sock ∧ sock.kind = .udp ∧ sock.udpKey = none)
    (data : Bytes) (dstAddr : UInt32) (dstPort : UInt16) :
    s.step (.sendto id data dstAddr dstPort) = s := by
  simp only [step, sendto, sendtoKey]
  cases hsock : s.socketOf id with
  | none => rfl
  | some sock =>
      dsimp only
      split_ifs with hkind
      · rfl
      · split
        · rfl
        · next hkey => exact absurd ⟨sock, hsock, not_not.mp hkind, hkey⟩ h

theorem step_bind_of_not_udp {id : SocketId}
    (h : ¬ ∃ sock, s.socketOf id = some sock ∧ sock.kind = .udp) (addr : UInt32)
    (port : UInt16) : s.step (.bind id addr port) = s := by
  simp only [step, bind]
  cases hsock : s.socketOf id with
  | none => rfl
  | some sock => exact congrArg Prod.fst (if_pos fun hkind ↦ h ⟨sock, hsock, hkind⟩)

theorem socketOf_setsockopt {id : SocketId} {sock : Socket} (hsock : s.socketOf id = some sock)
    (opt : SockOpt) :
    (s.setsockopt id opt).1.socketOf =
      Function.update s.socketOf id (some { sock with opts := sock.opts.set opt }) := by
  have hself : s.socketOf = Function.update s.socketOf id (some sock) := by
    rw [← hsock, Function.update_eq_self]
  simp only [setsockopt, hsock]
  cases opt with
  | rcvTimeo d => exact socketOf_setSocket ..
  | reuseAddr v => exact socketOf_setSocket ..
  | rcvBuf v =>
      unfold SocketOptions.set
      dsimp only
      by_cases hv : v = 0
      · rw [if_pos hv, if_pos hv]
        exact hself
      · rw [if_neg hv, if_neg hv, ← socketOf_setSocket]
        split <;> rfl
  | sndBuf v =>
      unfold SocketOptions.set
      dsimp only
      by_cases hv : v = 0
      · rw [if_pos hv, if_pos hv]
        exact hself
      · rw [if_neg hv, if_neg hv, ← socketOf_setSocket]
        split <;> rfl

theorem socketOf_step (he : e.Immediate) : (s.step e).socketOf = s.written e := by
  cases e with
  | pump p => exact socketOf_eq_of_sockets (pumpOnce_sockets s p)
  | socket => exact socketOf_setSocket ..
  | udpSocket => exact socketOf_setSocket ..
  | listen id port =>
      simp only [step, listen, written, writes]
      cases s.socketOf id with
      | none => rfl
      | some sock => exact socketOf_setSocket ..
  | accept listener start pumps =>
      obtain rfl := he
      rw [step_accept, written, writes]
      cases s.acceptable listener with
      | none => rfl
      | some p => exact socketOf_setSocket ..
  | connect id now iss remoteAddr remotePort pumps =>
      obtain rfl := he
      rw [step_connect, written, writes]
      cases s.socketOf id with
      | none => rfl
      | some sock => exact socketOf_setSocket ..
  | send id now data =>
      rw [step_send]
      rfl
  | recv id len start pumps =>
      obtain rfl := he
      rw [step_recv]
      rfl
  | close id now pumps =>
      obtain rfl := he
      exact socketOf_close s id now
  | bind id addr port =>
      cases hsock : s.socketOf id with
      | none => simp only [step, bind, written, writes, hsock]
      | some sock => exact socketOf_bind hsock addr port
  | sendto id data dstAddr dstPort =>
      simp only [written, writes]
      cases hsock : s.socketOf id with
      | none => simp only [step, sendto, hsock]
      | some sock =>
          by_cases hunbound : sock.kind = .udp ∧ sock.udpKey = none
          · simp only [step, sendto_of_unbound hsock hunbound, if_pos hunbound]
            exact socketOf_setSocket ..
          · rw [step_sendto_of_not_unbound]
            · simp only [if_neg hunbound]
            · rintro ⟨sock', hsock', hno⟩
              obtain rfl := Option.some.inj (hsock.symm.trans hsock')
              exact hunbound hno
  | recvfrom id len start pumps =>
      obtain rfl := he
      rw [step_recvfrom]
      rfl
  | setsockopt id opt =>
      simp only [written, writes]
      cases hsock : s.socketOf id with
      | none => simp only [step, setsockopt, hsock, Option.map_none]
      | some sock => exact socketOf_setsockopt hsock opt

/-! ## Parts of a socket -/

variable {β : Type} {v : Socket → Option β}

theorem view_step (he : e.Immediate) :
    view v (s.step e) =
      match s.writes e with
      | none => view v s
      | some (id, entry) => Function.update (view v s) id (entry.bind v) := by
  funext id
  rw [view, socketOf_step he, written]
  cases s.writes e with
  | none => rfl
  | some w =>
      obtain ⟨i, entry⟩ := w
      dsimp only
      by_cases hid : id = i
      · subst hid
        rw [Function.update_self, Function.update_self]
      · rw [Function.update_of_ne hid, Function.update_of_ne hid]
        rfl

theorem view_accept {listener : SocketId} {l : Socket} {key : ConnectionKey}
    (h : s.acceptable listener = some (l, key)) (start : Instant) :
    view v (s.step (.accept listener start [])) =
      Function.update (view v s) s.nextSocketId (v { kind := .tcp, connKey := some key }) := by
  rw [view_step (e := .accept listener start []) rfl, writes, h]
  rfl

theorem view_connect {id : SocketId} {sock : Socket} (h : s.socketOf id = some sock)
    (now : Instant) (iss remoteAddr : UInt32) (remotePort : UInt16) :
    view v (s.step (.connect id now iss remoteAddr remotePort [])) =
      Function.update (view v s) id
        (v { sock with connKey := some (s.dialKey remoteAddr remotePort) }) := by
  rw [view_step (e := .connect id now iss remoteAddr remotePort []) rfl, writes, h]
  rfl

theorem view_close (s : Stack) (id : SocketId) (now : Instant) :
    view v (s.step (.close id now [])) = Function.update (view v s) id none :=
  view_step rfl

theorem view_setsockopt {id : SocketId} {sock : Socket} (h : s.socketOf id = some sock)
    (opt : SockOpt) :
    view v (s.step (.setsockopt id opt)) =
      Function.update (view v s) id (v { sock with opts := sock.opts.set opt }) := by
  rw [view_step (e := .setsockopt id opt) trivial, writes, h]
  rfl

theorem view_sendto {id : SocketId} {sock : Socket} (hsock : s.socketOf id = some sock)
    (h : sock.kind = .udp ∧ sock.udpKey = none) (data : Bytes) (dstAddr : UInt32)
    (dstPort : UInt16) :
    view v (s.step (.sendto id data dstAddr dstPort)) =
      Function.update (view v s) id (v { sock with udpKey := some s.ephemeralKey }) := by
  rw [view_step (e := .sendto id data dstAddr dstPort) trivial, writes, hsock]
  dsimp only
  rw [if_pos h]
  rfl

/-- Without `SO_REUSEADDR` only a free address is taken. -/
theorem view_bind {id : SocketId} {sock : Socket} (hsock : s.socketOf id = some sock)
    (hkind : sock.kind = .udp) (hreuse : sock.opts.reuseAddr = false) (addr : UInt32)
    (port : UInt16) :
    view v (s.step (.bind id addr port)) =
      if s.udp.isBound (s.bindKey addr port) then view v s
      else Function.update (view v s) id
        (v { sock with udpKey := some (s.bindKey addr port) }) := by
  rw [view_step (e := .bind id addr port) trivial, writes, hsock]
  dsimp only
  cases hbound : s.udp.isBound (s.bindKey addr port) with
  | true => rw [if_neg (by simp [hreuse]), if_pos rfl]
  | false =>
      rw [if_pos ⟨hkind, .inl rfl⟩, if_neg Bool.false_ne_true]
      rfl

/-! ## New sockets -/

/-- Identifiers not yet handed out belong to no socket. -/
def Fresh (s : Stack) : Prop := ∀ id, s.nextSocketId ≤ id → s.socketOf id = none

/-- The call hands out a new identifier. -/
def opensSocket (s : Stack) : StackEvent → Bool
  | .socket | .udpSocket => true
  | .accept listener _ _ => (s.acceptable listener).isSome
  | _ => false

theorem nextSocketId_step (he : e.Immediate) :
    (s.step e).nextSocketId = s.nextSocketId + (s.opensSocket e).toNat := by
  cases e with
  | pump p =>
      obtain ⟨tcp, udp, hpump⟩ := s.pumpOnce_frame p
      simp only [step, hpump]
      rfl
  | socket | udpSocket => rfl
  | listen id port =>
      simp only [step, listen]
      split <;> rfl
  | accept listener start pumps =>
      obtain rfl := he
      rw [step_accept, opensSocket]
      cases s.acceptable listener <;> rfl
  | connect id now iss remoteAddr remotePort pumps =>
      obtain rfl := he
      rw [step_connect]
      cases s.socketOf id <;> rfl
  | send id now data =>
      rw [step_send]
      rfl
  | recv id len start pumps =>
      obtain rfl := he
      rw [step_recv]
      rfl
  | close id now pumps =>
      obtain rfl := he
      rw [step_close]
      rfl
  | bind id addr port =>
      simp only [step, bind]
      split
      · rfl
      · split_ifs <;> rfl
  | sendto id data dstAddr dstPort =>
      simp only [step, sendto, sendtoKey]
      split
      · rfl
      · split_ifs
        · rfl
        · split <;> rfl
  | recvfrom id len start pumps =>
      obtain rfl := he
      rw [step_recvfrom]
      rfl
  | setsockopt id opt =>
      simp only [step, setsockopt]
      split
      · rfl
      · split
        · rfl
        · rfl
        · split_ifs
          · rfl
          · split <;> rfl
        · split_ifs
          · rfl
          · split <;> rfl

theorem writes_of_opensSocket (h : s.opensSocket e = true) :
    ∃ sock, s.writes e = some (s.nextSocketId, some sock) := by
  cases e with
  | socket => exact ⟨_, rfl⟩
  | udpSocket => exact ⟨_, rfl⟩
  | accept listener start pumps =>
      obtain ⟨p, hp⟩ := Option.isSome_iff_exists.mp h
      exact ⟨_, by simp only [writes, hp, Option.map_some]; rfl⟩
  | _ => cases h

/-- Any other call writes a socket that is open. -/
theorem open_of_writes {id : SocketId} {sock : Socket} (h : s.opensSocket e = false)
    (hw : s.writes e = some (id, some sock)) : ∃ sock', s.socketOf id = some sock' := by
  cases e with
  | socket => cases h
  | udpSocket => cases h
  | accept listener start pumps =>
      simp only [opensSocket, Option.isSome_eq_false_iff, Option.isNone_iff_eq_none] at h
      simp only [writes, h, Option.map_none] at hw
      cases hw
  | listen | connect | setsockopt =>
      obtain ⟨sock', hsock, heq⟩ := Option.map_eq_some_iff.mp hw
      obtain ⟨rfl, -⟩ := Prod.mk.inj heq
      exact ⟨sock', hsock⟩
  | close => cases hw
  | bind | sendto =>
      simp only [writes] at hw
      split at hw
      · cases hw
      · next sock' hsock =>
          split_ifs at hw
          obtain ⟨rfl, -⟩ := Prod.mk.inj (Option.some.inj hw)
          exact ⟨sock', hsock⟩
  | pump | send | recv | recvfrom => cases hw

theorem Fresh.step (h : s.Fresh) (he : e.Immediate) : (s.step e).Fresh := by
  intro id hid
  rw [nextSocketId_step he] at hid
  rw [socketOf_step he, written]
  have hold := h id (le_trans (Nat.le_add_right _ _) hid)
  cases hw : s.writes e with
  | none => exact hold
  | some w =>
      obtain ⟨i, entry⟩ := w
      dsimp only
      by_cases hi : id = i
      · subst hi
        rw [Function.update_self]
        cases entry with
        | none => rfl
        | some sock =>
            exfalso
            cases hopens : s.opensSocket e with
            | true =>
                obtain ⟨sock', hw'⟩ := writes_of_opensSocket hopens
                rw [hw'] at hw
                obtain ⟨rfl, -⟩ := Prod.mk.inj (Option.some.inj hw)
                rw [hopens] at hid
                exact absurd hid (Nat.not_succ_le_self _)
            | false =>
                obtain ⟨sock', hsock⟩ := open_of_writes hopens hw
                rw [hold] at hsock
                cases hsock
      · rw [Function.update_of_ne hi]
        exact hold

theorem Fresh.view_ne (h : s.Fresh) {b : β}
    (hid : ∀ id < s.nextSocketId, view v s id ≠ some b) (id : SocketId) : view v s id ≠ some b := by
  rcases Nat.lt_or_ge id s.nextSocketId with hlt | hge
  · exact hid id hlt
  · rw [view, h id hge, Option.bind_none]
    simp

theorem ReachableWhen.fresh {ok : Stack → StackEvent → Prop} (h : s.ReachableWhen ok) :
    s.Fresh := by
  refine h.invariant (P := Fresh) ?_ ?_
  · intro selfAddr id _
    rfl
  · intro s e he _ hs
    exact hs.step he

end Stack

/-! ## What a call may do to an entry -/

/-- The ways in which a call changes the entry it writes. -/
inductive StackEvent.Edit : StackEvent → Option Socket → Option Socket → Prop
  | socket : Edit .socket none (some { kind := .tcp })
  | udpSocket : Edit .udpSocket none (some { kind := .udp })
  | listen {id : SocketId} {port : UInt16} (sock : Socket) (addr : UInt32) :
      Edit (.listen id port) (some sock)
        (some { sock with isListener := true, listenAddr := addr, listenPort := port })
  | accept {listener : SocketId} {start : Instant} {pumps : List Pump} (key : ConnectionKey) :
      Edit (.accept listener start pumps) none (some { kind := .tcp, connKey := some key })
  | connect {id : SocketId} {now : Instant} {iss remoteAddr : UInt32} {remotePort : UInt16}
      {pumps : List Pump} (sock : Socket) (key : ConnectionKey) :
      Edit (.connect id now iss remoteAddr remotePort pumps) (some sock)
        (some { sock with connKey := some key })
  | close {id : SocketId} {now : Instant} {pumps : List Pump} (old : Option Socket) :
      Edit (.close id now pumps) old none
  | bind {id : SocketId} {addr : UInt32} {port : UInt16} (sock : Socket) (key : UInt32 × UInt16) :
      Edit (.bind id addr port) (some sock) (some { sock with udpKey := some key })
  | sendto {id : SocketId} {data : Bytes} {dstAddr : UInt32} {dstPort : UInt16} (sock : Socket)
      (key : UInt32 × UInt16) :
      Edit (.sendto id data dstAddr dstPort) (some sock) (some { sock with udpKey := some key })
  | setsockopt {id : SocketId} {opt : SockOpt} (sock : Socket) :
      Edit (.setsockopt id opt) (some sock) (some { sock with opts := sock.opts.set opt })

namespace Stack

variable {s : Stack} {e : StackEvent}

theorem Fresh.edit (hs : s.Fresh) {id : SocketId} {entry : Option Socket}
    (hw : s.writes e = some (id, entry)) : e.Edit (s.socketOf id) entry := by
  have hnew := hs _ le_rfl
  cases e with
  | socket | udpSocket =>
      obtain ⟨rfl, rfl⟩ := Prod.mk.inj (Option.some.inj hw)
      rw [hnew]
      constructor
  | accept listener start pumps =>
      obtain ⟨p, -, heq⟩ := Option.map_eq_some_iff.mp hw
      obtain ⟨rfl, rfl⟩ := Prod.mk.inj heq
      rw [hnew]
      exact .accept p.2
  | listen | connect | setsockopt =>
      obtain ⟨sock, hsock, heq⟩ := Option.map_eq_some_iff.mp hw
      obtain ⟨rfl, rfl⟩ := Prod.mk.inj heq
      rw [hsock]
      constructor
  | close =>
      obtain ⟨rfl, rfl⟩ := Prod.mk.inj (Option.some.inj hw)
      exact .close _
  | bind | sendto =>
      simp only [writes] at hw
      split at hw
      · cases hw
      · next sock hsock =>
          split_ifs at hw
          obtain ⟨rfl, rfl⟩ := Prod.mk.inj (Option.some.inj hw)
          rw [hsock]
          constructor
  | pump | send | recv | recvfrom => cases hw

theorem Fresh.socketOf_step (hs : s.Fresh) (he : e.Immediate) {id : SocketId} {sock : Socket}
    (h : (s.step e).socketOf id = some sock) :
    s.socketOf id = some sock ∨ e.Edit (s.socketOf id) (some sock) := by
  rw [Stack.socketOf_step he, written] at h
  cases hw : s.writes e with
  | none =>
      rw [hw] at h
      exact .inl h
  | some w =>
      obtain ⟨i, entry⟩ := w
      rw [hw] at h
      dsimp only at h
      rw [Function.update_apply] at h
      split_ifs at h with hid
      · subst hid h
        exact .inr (hs.edit hw)
      · exact .inl h

/-- A call that leaves this part of the entry it writes leaves it of every socket. -/
theorem view_step_of_edit {β : Type} {v : Socket → Option β} (hs : s.Fresh) (he : e.Immediate)
    (h : ∀ old new, e.Edit old new → new.bind v = old.bind v) :
    view v (s.step e) = view v s := by
  rw [view_step he]
  cases hw : s.writes e with
  | none => rfl
  | some w =>
      obtain ⟨id, entry⟩ := w
      dsimp only
      rw [h _ _ (hs.edit hw)]
      exact Function.update_eq_self id (view v s)

end Stack

end MiniTcp
