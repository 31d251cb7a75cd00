import MiniTcp.Lib.Registry
import MiniTcp.Sockets.SocketMap

/-!
# Bound sockets

A UDP socket holds a copy of the key of its binding, and the binding does not know its
socket.  Without `SO_REUSEADDR` each binding has exactly one socket and each bound socket
its binding as long as no bound socket is bound a second time and the port an unbound
socket sends from is free; `sendto` does not look whether it is.
-/

namespace MiniTcp

/-- The call does not set `SO_REUSEADDR`. -/
def StackEvent.NoReuse : StackEvent → Prop
  | .setsockopt _ (.reuseAddr v) => v = false
  | _ => True

namespace UdpTable

variable {t t' : UdpTable} {key : UInt32 × UInt16} {b b' : UdpBinding}

def bound (t : UdpTable) : Set (UInt32 × UInt16) := {k | t.isBound k = true}

theorem mem_bound : key ∈ t.bound ↔ t.isBound key = true := Iff.rfl

/-- How many bytes may wait at a bound address. -/
def capOf (t : UdpTable) (key : UInt32 × UInt16) : Option ℕ :=
  (t.binding key).map fun b ↦ b.recvQueueCapBytes

theorem isBound_eq (t : UdpTable) (key : UInt32 × UInt16) :
    t.isBound key = (t.capOf key).isSome := by
  rw [isBound, capOf, Option.isSome_map]

theorem capOf_insert (t : UdpTable) (key : UInt32 × UInt16) (b : UdpBinding) :
    capOf ⟨AList.insert key b t.binds⟩ =
      Function.update t.capOf key (some b.recvQueueCapBytes) := by
  funext key'
  rw [capOf, binding, AssocMap.lookup_insert_eq, Function.update_apply]
  split_ifs <;> rfl

theorem capOf_insert_of_binding (h : t.binding key = some b)
    (hcap : b'.recvQueueCapBytes = b.recvQueueCapBytes) :
    capOf ⟨AList.insert key b' t.binds⟩ = t.capOf := by
  have hkey : t.capOf key = some b'.recvQueueCapBytes := by rw [capOf, h, hcap, Option.map_some]
  rw [capOf_insert, ← hkey, Function.update_eq_self]

theorem capOf_unbind (t : UdpTable) (key : UInt32 × UInt16) :
    (t.unbind key).capOf = Function.update t.capOf key none := by
  funext key'
  rw [capOf, binding, unbind, AssocMap.lookup_erase_eq, Function.update_apply]
  split_ifs <;> rfl

theorem capOf_deliver (t : UdpTable) (key : UInt32 × UInt16) (srcAddr : UInt32) (srcPort : UInt16)
    (data : Bytes) : (t.deliver key srcAddr srcPort data).capOf = t.capOf := by
  unfold deliver
  split
  · rfl
  · next b hb =>
      dsimp only
      split_ifs
      · rfl
      · exact capOf_insert_of_binding hb rfl

theorem capOf_handleDatagram (t : UdpTable) (ipHdr : IpHeader) (payload : Bytes) :
    (t.handleDatagram ipHdr payload).1.capOf = t.capOf := by
  unfold handleDatagram
  dsimp only
  split_ifs
  · rfl
  · exact capOf_deliver ..
  · rfl

theorem capOf_recv (t : UdpTable) (key : UInt32 × UInt16) : (t.recv key).1.capOf = t.capOf := by
  unfold recv
  split
  · next hb => exact capOf_insert_of_binding hb rfl
  · rfl

theorem capOf_setRecvCap (t : UdpTable) (key : UInt32 × UInt16) (cap : ℕ) :
    (t.setRecvCap key cap).capOf =
      if t.isBound key then Function.update t.capOf key (some cap) else t.capOf := by
  unfold setRecvCap isBound
  cases t.binding key with
  | none => rfl
  | some b => exact capOf_insert ..

theorem bound_of_capOf (h : t'.capOf = t.capOf) : t'.bound = t.bound := by
  ext k
  rw [mem_bound, mem_bound, isBound_eq, isBound_eq, h]

theorem bound_of_capOf_some {cap : ℕ} (h : t'.capOf = Function.update t.capOf key (some cap)) :
    t'.bound = insert key t.bound := by
  ext k
  rw [Set.mem_insert_iff, mem_bound, mem_bound, isBound_eq, isBound_eq, h, Function.update_apply]
  split_ifs with hk <;> simp [hk]

theorem bound_of_capOf_none (h : t'.capOf = Function.update t.capOf key none) :
    t'.bound = t.bound \ {key} := by
  ext k
  rw [Set.mem_sdiff, Set.mem_singleton_iff, mem_bound, mem_bound, isBound_eq, isBound_eq, h,
    Function.update_apply]
  split_ifs with hk <;> simp [hk]

theorem bound_setRecvCap (t : UdpTable) (key : UInt32 × UInt16) (cap : ℕ) :
    (t.setRecvCap key cap).bound = t.bound := by
  have hcap := t.capOf_setRecvCap key cap
  cases hbound : t.isBound key with
  | true =>
      rw [hbound, if_pos rfl] at hcap
      rw [bound_of_capOf_some hcap]
      exact Set.insert_eq_of_mem hbound
  | false =>
      rw [hbound, if_neg Bool.false_ne_true] at hcap
      exact bound_of_capOf hcap

end UdpTable

namespace Stack

variable {s : Stack} {e : StackEvent} {id : SocketId} {sock : Socket}

/-- `bind` takes the address unless it is taken. -/
theorem capOf_bindResult (s : Stack) (sock : Socket) (key : UInt32 × UInt16) :
    (s.bindResult sock key).1.capOf =
      if (s.bindResult sock key).2 then
        Function.update s.udp.capOf key
          (some (sock.opts.rcvbuf.getD defaultRecvQueueCapBytes))
      else s.udp.capOf := by
  unfold bindResult UdpTable.bind
  split_ifs with h₁ h₂ h₂
  · cases h₂
  · rfl
  · exact UdpTable.capOf_insert ..
  · exact absurd rfl h₂

theorem pumpOnce_capOf (s : Stack) (p : Pump) : (s.pumpOnce p).1.udp.capOf = s.udp.capOf := by
  unfold pumpOnce dispatchIpPacket handlePacket tick
  dsimp only
  cases p.packet with
  | none => rfl
  | some buf =>
      dsimp only
      cases acceptedPacket buf with
      | none => rfl
      | some packet =>
          dsimp only
          split_ifs
          · rfl
          · exact UdpTable.capOf_handleDatagram ..
          · rfl
          · rfl

theorem step_close_udp (s : Stack) (id : SocketId) (now : Instant) :
    (s.step (.close id now [])).udp =
      match s.udpKeyOf id with
      | none => s.udp
      | some key => s.udp.unbind key :=
  congrArg Stack.udp (step_close s id now)

theorem step_bind_udp (hsock : s.socketOf id = some sock) (hkind : sock.kind = .udp)
    (addr : UInt32) (port : UInt16) :
    (s.step (.bind id addr port)).udp = (s.bindResult sock (s.bindKey addr port)).1 := by
  rw [step, bind_of_udp hsock hkind]
  split_ifs <;> rfl

theorem step_setsockopt_udp (s : Stack) (id : SocketId) (opt : SockOpt) :
    (s.step (.setsockopt id opt)).udp =
      match opt with
      | .rcvBuf v =>
          if v = 0 then s.udp
          else
            match s.udpKeyOf id with
            | none => s.udp
            | some key => s.udp.setRecvCap key v
      | _ => s.udp := by
  simp only [step, setsockopt, udpKeyOf, view]
  cases s.socketOf id with
  | none =>
      cases opt with
      | rcvBuf v => exact (ite_self _).symm
      | _ => rfl
  | some sock =>
      dsimp only [Option.bind_some]
      cases opt with
      | rcvTimeo d => rfl
      | reuseAddr v => rfl
      | rcvBuf v =>
          dsimp only
          by_cases hv : v = 0
          · rw [if_pos hv, if_pos hv]
          · rw [if_neg hv, if_neg hv]
            cases sock.kind with
            | tcp => cases sock.connKey <;> rfl
            | udp => cases sock.udpKey <;> rfl
      | sndBuf v =>
          dsimp only
          by_cases hv : v = 0
          · rw [if_pos hv]
          · rw [if_neg hv]
            split <;> rfl

/-- Only `bind`, `sendto`, `close` and `setsockopt` change which addresses are bound and
how much may wait there. -/
theorem capOf_step (he : e.Immediate) (hbind : ∀ id addr port, e ≠ .bind id addr port)
    (hsendto : ∀ id data dstAddr dstPort, e ≠ .sendto id data dstAddr dstPort)
    (hclose : ∀ id now pumps, e ≠ .close id now pumps)
    (hset : ∀ id opt, e ≠ .setsockopt id opt) : (s.step e).udp.capOf = s.udp.capOf := by
  cases e with
  | pump p => exact pumpOnce_capOf s p
  | bind id addr port => exact absurd rfl (hbind id addr port)
  | sendto id data dstAddr dstPort => exact absurd rfl (hsendto id data dstAddr dstPort)
  | close id now pumps => exact absurd rfl (hclose id now pumps)
  | setsockopt id opt => exact absurd rfl (hset id opt)
  | socket | udpSocket => rfl
  | listen id port =>
      simp only [step, listen]
      split <;> rfl
  | accept listener start pumps =>
      obtain rfl := he
      rw [step_accept]
      split <;> rfl
  | connect id now iss remoteAddr remotePort pumps =>
      obtain rfl := he
      rw [step_connect]
      split <;> rfl
  | send id now data => rw [step_send]
  | recv id len start pumps =>
      obtain rfl := he
      rw [step_recv]
  | recvfrom id len start pumps =>
      obtain rfl := he
      rw [step_recvfrom]
      dsimp only
      split
      · rfl
      · exact UdpTable.capOf_recv ..

/-- Only `bind`, `sendto` and `close` change which address a socket is bound to. -/
theorem udpKeyOf_step (hs : s.Fresh) (he : e.Immediate)
    (hbind : ∀ id addr port, e ≠ .bind id addr port)
    (hsendto : ∀ id data dstAddr dstPort, e ≠ .sendto id data dstAddr dstPort)
    (hclose : ∀ id now pumps, e ≠ .close id now pumps) : (s.step e).udpKeyOf = s.udpKeyOf := by
  refine view_step_of_edit hs he ?_
  intro old new hedit
  cases hedit with
  | bind => exact absurd rfl (hbind _ _ _)
  | sendto => exact absurd rfl (hsendto _ _ _ _)
  | close => exact absurd rfl (hclose _ _ _)
  | _ => rfl

/-! ## Who owns a binding -/

/-- Every bound socket has its binding and every binding has one socket. -/
structure BindingsOwned (s : Stack) : Prop where
  covers : Registry.Covers s.udpKeyOf s.udp.bound
  exclusive : Registry.Exclusive s.udpKeyOf

/-- A bound socket is only bound again where that fails, and the ephemeral port is free
when an unbound socket sends. -/
def KeepsBindings (s : Stack) : StackEvent → Prop
  | .bind id addr port => s.udpKeyOf id ≠ none → s.udp.isBound (s.bindKey addr port) = true
  | .sendto id _ _ _ => ∀ sock, s.socketOf id = some sock → sock.kind = .udp →
      sock.udpKey = none → s.udp.isBound s.ephemeralKey = false
  | _ => True

def NoReuse (s : Stack) : Prop :=
  ∀ id sock, s.socketOf id = some sock → sock.opts.reuseAddr = false

theorem NoReuse.step (h : s.NoReuse) (hs : s.Fresh) (he : e.Immediate) (hreuse : e.NoReuse) :
    (s.step e).NoReuse := by
  intro id sock hsock
  rcases hs.socketOf_step he hsock with hold | hedit
  · exact h id sock hold
  · generalize hold : s.socketOf id = old at hedit
    cases hedit with
    | socket | udpSocket | accept => rfl
    | listen sock | connect sock | bind sock | sendto sock => exact h id sock hold
    | @setsockopt _ opt sock =>
        have hprev := h id sock hold
        cases opt with
        | rcvTimeo d => exact hprev
        | reuseAddr v => exact hreuse
        | rcvBuf v | sndBuf v =>
            dsimp only [SocketOptions.set]
            split_ifs <;> exact hprev

theorem BindingsOwned.claim {s' : Stack} {key : UInt32 × UInt16} {cap : ℕ} (h : s.BindingsOwned)
    (hid : s.udpKeyOf id = none) (hfree : s.udp.isBound key = false)
    (hkeys : s'.udpKeyOf = Function.update s.udpKeyOf id (some key))
    (hcaps : s'.udp.capOf = Function.update s.udp.capOf key (some cap)) : s'.BindingsOwned := by
  constructor
  · rw [hkeys, UdpTable.bound_of_capOf_some hcaps, h.covers.claim_iff]
    intro k hk
    rw [hid] at hk
    cases hk
  · rw [hkeys]
    refine h.exclusive.claim ?_
    rintro ⟨j, -, hj⟩
    have hbound := (h.covers key).mpr ⟨j, hj⟩
    rw [UdpTable.mem_bound, hfree] at hbound
    cases hbound

theorem BindingsOwned.same {s' : Stack} (h : s.BindingsOwned) (hkeys : s'.udpKeyOf = s.udpKeyOf)
    (hcaps : s'.udp.capOf = s.udp.capOf) : s'.BindingsOwned := by
  constructor
  · rw [hkeys, UdpTable.bound_of_capOf hcaps]
    exact h.covers
  · rw [hkeys]
    exact h.exclusive

theorem capOf_bindResult_of_noReuse (hreuse : sock.opts.reuseAddr = false)
    (key : UInt32 × UInt16) :
    (s.bindResult sock key).1.capOf =
      if s.udp.isBound key then s.udp.capOf
      else Function.update s.udp.capOf key
        (some (sock.opts.rcvbuf.getD defaultRecvQueueCapBytes)) := by
  have hok := s.bindResult_snd sock key
  rw [capOf_bindResult]
  cases hbound : s.udp.isBound key with
  | true =>
      have hfail : ¬ (s.bindResult sock key).2 = true := by
        rw [hok, hbound, hreuse]
        simp
      rw [if_neg hfail, if_pos rfl]
  | false => rw [if_pos (hok.mpr (.inl hbound)), if_neg Bool.false_ne_true]

theorem udpKeyOf_of_kind (hsock : s.socketOf id = some sock) (hkind : sock.kind = .udp) :
    s.udpKeyOf id = sock.udpKey := by
  rw [udpKeyOf, view, hsock, Option.bind_some, if_pos hkind]

theorem udpKeyOf_of_not_udp (h : ¬ ∃ sock, s.socketOf id = some sock ∧ sock.kind = .udp) :
    s.udpKeyOf id = none := by
  rw [udpKeyOf, view]
  cases hsock : s.socketOf id with
  | none => rfl
  | some sock => exact if_neg fun hkind ↦ h ⟨sock, hsock, hkind⟩

theorem udpKeyOf_bind (hsock : s.socketOf id = some sock) (hkind : sock.kind = .udp)
    (hreuse : sock.opts.reuseAddr = false) (addr : UInt32) (port : UInt16) :
    (s.step (.bind id addr port)).udpKeyOf =
      if s.udp.isBound (s.bindKey addr port) then s.udpKeyOf
      else Function.update s.udpKeyOf id (some (s.bindKey addr port)) := by
  rw [udpKeyOf, view_bind hsock hkind hreuse]
  dsimp only
  rw [if_pos hkind]
  rfl

theorem udpKeyOf_sendto (hsock : s.socketOf id = some sock)
    (h : sock.kind = .udp ∧ sock.udpKey = none) (data : Bytes) (dstAddr : UInt32)
    (dstPort : UInt16) :
    (s.step (.sendto id data dstAddr dstPort)).udpKeyOf =
      Function.update s.udpKeyOf id (some s.ephemeralKey) := by
  rw [udpKeyOf, view_sendto hsock h]
  dsimp only
  rw [if_pos h.1]
  rfl

theorem capOf_sendto (hsock : s.socketOf id = some sock)
    (h : sock.kind = .udp ∧ sock.udpKey = none) (hreuse : sock.opts.reuseAddr = false)
    (data : Bytes) (dstAddr : UInt32) (dstPort : UInt16) :
    (s.step (.sendto id data dstAddr dstPort)).udp.capOf =
      if s.udp.isBound s.ephemeralKey then s.udp.capOf
      else Function.update s.udp.capOf s.ephemeralKey
        (some (sock.opts.rcvbuf.getD defaultRecvQueueCapBytes)) := by
  rw [step, sendto_of_unbound hsock h]
  exact capOf_bindResult_of_noReuse hreuse s.ephemeralKey

theorem bindingsOwned_bind_iff (h : s.BindingsOwned) (hsock : s.socketOf id = some sock)
    (hkind : sock.kind = .udp) (hreuse : sock.opts.reuseAddr = false) (addr : UInt32)
    (port : UInt16) :
    (s.step (.bind id addr port)).BindingsOwned ↔ s.KeepsBindings (.bind id addr port) := by
  have hkeys := udpKeyOf_bind hsock hkind hreuse addr port
  have hcaps := capOf_bindResult_of_noReuse (s := s) hreuse (s.bindKey addr port)
  rw [← step_bind_udp hsock hkind] at hcaps
  cases hbound : s.udp.isBound (s.bindKey addr port) with
  | true =>
      rw [hbound, if_pos rfl] at hkeys hcaps
      exact iff_of_true (h.same hkeys hcaps) fun _ ↦ hbound
  | false =>
      rw [hbound, if_neg Bool.false_ne_true] at hkeys hcaps
      cases hid : s.udpKeyOf id with
      | none => exact iff_of_true (h.claim hid hbound hkeys hcaps) fun hne ↦ absurd hid hne
      | some old =>
          refine iff_of_false ?_ ?_
          · -- the old binding has lost its only socket
            intro howned
            have hcovers := howned.covers
            rw [hkeys, UdpTable.bound_of_capOf_some hcaps, h.covers.claim_iff] at hcovers
            have hold : s.udp.isBound old = true := (h.covers old).mpr ⟨id, hid⟩
            rcases hcovers old hid with rfl | ⟨j, hne, hj⟩
            · rw [hbound] at hold
              cases hold
            · exact hne (h.exclusive j id old hj hid)
          · intro hkeeps
            have hnew := hkeeps (by simp [hid])
            rw [hbound] at hnew
            cases hnew

theorem bindingsOwned_sendto_iff (h : s.BindingsOwned) (hsock : s.socketOf id = some sock)
    (hunbound : sock.kind = .udp ∧ sock.udpKey = none) (hreuse : sock.opts.reuseAddr = false)
    (data : Bytes) (dstAddr : UInt32) (dstPort : UInt16) :
    (s.step (.sendto id data dstAddr dstPort)).BindingsOwned ↔
      s.udp.isBound s.ephemeralKey = false := by
  have hid := (udpKeyOf_of_kind hsock hunbound.1).trans hunbound.2
  have hkeys := udpKeyOf_sendto hsock hunbound data dstAddr dstPort
  have hcaps := capOf_sendto hsock hunbound hreuse data dstAddr dstPort
  cases hbound : s.udp.isBound s.ephemeralKey with
  | false =>
      rw [hbound, if_neg Bool.false_ne_true] at hcaps
      exact iff_of_true (h.claim hid hbound hkeys hcaps) rfl
  | true =>
      refine iff_of_false ?_ (by simp)
      intro howned
      have hexclusive := howned.exclusive
      rw [hkeys] at hexclusive
      obtain ⟨j, hj⟩ := (h.covers s.ephemeralKey).mp hbound
      refine Registry.not_exclusive_claim ⟨j, ?_, hj⟩ hexclusive
      rintro rfl
      rw [hid] at hj
      cases hj

theorem BindingsOwned.close (h : s.BindingsOwned) (id : SocketId) (now : Instant) :
    (s.step (.close id now [])).BindingsOwned := by
  have hkeys : (s.step (.close id now [])).udpKeyOf = Function.update s.udpKeyOf id none :=
    view_close s id now
  have hudp := step_close_udp s id now
  cases hid : s.udpKeyOf id with
  | none =>
      rw [hid] at hudp
      refine h.same (hkeys.trans ?_) (congrArg UdpTable.capOf hudp)
      rw [← hid, Function.update_eq_self]
  | some key =>
      rw [hid] at hudp
      have hcaps := (congrArg UdpTable.capOf hudp).trans (s.udp.capOf_unbind key)
      constructor
      · rw [hkeys, UdpTable.bound_of_capOf_none hcaps]
        exact h.covers.unregister h.exclusive hid
      · rw [hkeys]
        exact h.exclusive.release

theorem bound_setsockopt (s : Stack) (id : SocketId) (opt : SockOpt) :
    (s.step (.setsockopt id opt)).udp.bound = s.udp.bound := by
  rw [step_setsockopt_udp]
  cases opt with
  | rcvBuf v =>
      dsimp only
      split_ifs
      · rfl
      · split
        · rfl
        · exact UdpTable.bound_setRecvCap ..
  | _ => rfl

/-- A call keeps every binding owned exactly under the condition above. -/
theorem bindingsOwned_step_iff (h : s.BindingsOwned) (hs : s.Fresh) (hno : s.NoReuse)
    (he : e.Immediate) : (s.step e).BindingsOwned ↔ s.KeepsBindings e := by
  cases e with
  | bind id addr port =>
      by_cases hudp : ∃ sock, s.socketOf id = some sock ∧ sock.kind = .udp
      · obtain ⟨sock, hsock, hkind⟩ := hudp
        exact bindingsOwned_bind_iff h hsock hkind (hno id sock hsock) addr port
      · rw [step_bind_of_not_udp hudp]
        exact iff_of_true h fun hne ↦ absurd (udpKeyOf_of_not_udp hudp) hne
  | sendto id data dstAddr dstPort =>
      by_cases hunbound : ∃ sock, s.socketOf id = some sock ∧ sock.kind = .udp ∧ sock.udpKey = none
      · obtain ⟨sock, hsock, hunbound⟩ := hunbound
        rw [bindingsOwned_sendto_iff h hsock hunbound (hno id sock hsock)]
        constructor
        · intro hfree sock' _ _ _
          exact hfree
        · intro hkeeps
          exact hkeeps sock hsock hunbound.1 hunbound.2
      · rw [step_sendto_of_not_unbound hunbound]
        refine iff_of_true h ?_
        intro sock hsock hkind hkey
        exact absurd ⟨sock, hsock, hkind, hkey⟩ hunbound
  | close id now pumps =>
      obtain rfl := he
      exact iff_of_true (h.close id now) trivial
  | setsockopt id opt =>
      have hkeys : (s.step (.setsockopt id opt)).udpKeyOf = s.udpKeyOf :=
        udpKeyOf_step hs trivial (by simp) (by simp) (by simp)
      refine iff_of_true ⟨?_, ?_⟩ trivial
      · rw [hkeys, bound_setsockopt]
        exact h.covers
      · rw [hkeys]
        exact h.exclusive
  | _ =>
      refine iff_of_true (h.same ?_ ?_) trivial
      · exact udpKeyOf_step hs he (by simp) (by simp) (by simp)
      · exact capOf_step he (by simp) (by simp) (by simp) (by simp)

/-- What `close` leaves to the sockets it does not close. -/
def ClosesOnlyItsOwn (s : Stack) : Prop :=
  ∀ id id' key now pumps, id ≠ id' → s.udpKeyOf id' = some key →
    (s.step (.close id now pumps)).udp.isBound key = true

theorem BindingsOwned.closesOnlyItsOwn (h : s.BindingsOwned) (hs : s.Fresh) (hno : s.NoReuse) :
    s.ClosesOnlyItsOwn := by
  intro id id' key now pumps hne hkey
  have hphases : (s.step (.close id now pumps)).BindingsOwned ∧
      (s.step (.close id now pumps)).udpKeyOf id' = some key := by
    rw [← step_phases]
    -- the linger rounds come after the call itself, and keep the same invariant
    refine (Run.Along.invariant (P := fun s ↦ (s.Fresh ∧ s.NoReuse) ∧ s.BindingsOwned ∧
      s.udpKeyOf id' = some key) (.of_forall step (fun _ _ ↦ trivial) s _) ?_
      ⟨⟨hs, hno⟩, h, hkey⟩).2
    rintro s e he - ⟨⟨hs, hno⟩, howned, hkey⟩
    have himm := immediate_of_mem_phases he
    rcases mem_phases_close he with rfl | ⟨p, rfl⟩
    · refine ⟨⟨hs.step himm, hno.step hs himm trivial⟩, howned.close id now, ?_⟩
      have hkeys : (s.step (.close id now [])).udpKeyOf = Function.update s.udpKeyOf id none :=
        view_close s id now
      rw [hkeys, Function.update_of_ne hne.symm]
      exact hkey
    · refine ⟨⟨hs.step himm, hno.step hs himm trivial⟩,
        (bindingsOwned_step_iff howned hs hno himm).mpr trivial, ?_⟩
      rw [udpKeyOf_step hs himm (by simp) (by simp) (by simp)]
      exact hkey
  exact (hphases.1.covers key).mpr ⟨id', hphases.2⟩

/-- In every run without `SO_REUSEADDR` whose calls keep the condition, the bound sockets
and the bindings are in bijection, and closing a socket leaves the bindings of the others;
every other call breaks the bijection at once. -/
theorem bindings_owned (h : s.ReachableWhen fun s e ↦ e.NoReuse ∧ s.KeepsBindings e) :
    Set.BijOn s.udpKeyOf {id | s.udpKeyOf id ≠ none}
        (Set.image some {key | s.udp.isBound key = true}) ∧
      s.ClosesOnlyItsOwn ∧
      ∀ e : StackEvent, e.Immediate → e.NoReuse →
        ((s.step e).BindingsOwned ↔ s.KeepsBindings e) := by
  have hinv : (s.Fresh ∧ s.NoReuse) ∧ s.BindingsOwned := by
    refine h.invariant (P := fun s ↦ (s.Fresh ∧ s.NoReuse) ∧ s.BindingsOwned) ?_ ?_
    · intro selfAddr
      refine ⟨⟨fun id _ ↦ rfl, fun id sock hsock ↦ ?_⟩, fun key ↦ ⟨fun hkey ↦ ?_, ?_⟩, ?_⟩
      · cases hsock
      · cases hkey
      · rintro ⟨id, hid⟩
        cases hid
      · intro id id' key hid
        cases hid
    · rintro s e he ⟨hreuse, hok⟩ ⟨⟨hs, hno⟩, howned⟩
      exact ⟨⟨hs.step he, hno.step hs he hreuse⟩,
        (bindingsOwned_step_iff howned hs hno he).mpr hok⟩
  obtain ⟨⟨hs, hno⟩, howned⟩ := hinv
  refine ⟨Registry.bijOn_iff.mpr ⟨howned.covers, howned.exclusive⟩,
    howned.closesOnlyItsOwn hs hno, ?_⟩
  intro e he _
  exact bindingsOwned_step_iff howned hs hno he

/-- One socket bound to port 7, and one that took a port of its own by sending. -/
def peers : Stack :=
  ((((new 1).step .udpSocket).step (.bind 1 0 7)).step .udpSocket).step (.sendto 2 [1] 2 7)

theorem bindings_owned_peers :
    peers.ReachableWhen (fun s e ↦ e.NoReuse ∧ s.KeepsBindings e) ∧
      peers.udpKeyOf 1 = some (1, 7) ∧ peers.udpKeyOf 2 = some (1, 51000) ∧
      Set.BijOn peers.udpKeyOf {id | peers.udpKeyOf id ≠ none}
        (Set.image some {key | peers.udp.isBound key = true}) ∧
      (peers.step (.close 2 0 [])).udp.isBound (1, 7) = true := by
  have hreach : peers.ReachableWhen fun s e ↦ e.NoReuse ∧ s.KeepsBindings e := by
    refine .tail _ (.tail _ (.tail _ (.tail _ (.start ⟨1, rfl⟩) ?_) ?_) ?_) ?_
    · exact ⟨⟨trivial, trivial⟩, trivial⟩
    · exact ⟨⟨trivial, fun hne ↦ absurd rfl hne⟩, trivial⟩
    · exact ⟨⟨trivial, trivial⟩, trivial⟩
    · refine ⟨⟨trivial, ?_⟩, trivial⟩
      intro sock _ _ _
      decide +kernel
  obtain ⟨hbij, hclose, -⟩ := bindings_owned hreach
  have hone : peers.udpKeyOf 1 = some (1, 7) := by decide +kernel
  exact ⟨hreach, hone, by decide +kernel, hbij, hclose 2 1 (1, 7) 0 [] (by decide) hone⟩

/-- The port `sendto` picks may be bound already: then two sockets hold one binding, and
closing the second takes it from the first.  And a socket bound twice leaves a binding
behind that no socket holds. -/
theorem exists_binding_shared :
    (∃ s : Stack, s.ReachableWhen (fun _ e ↦ e.NoReuse) ∧
        s.udpKeyOf 1 = some (1, 51000) ∧ s.udpKeyOf 2 = some (1, 51000) ∧
        (s.step (.close 2 0 [])).udpKeyOf 1 = some (1, 51000) ∧
        (s.step (.close 2 0 [])).udp.isBound (1, 51000) = false) ∧
      ∃ s : Stack, s.ReachableWhen (fun _ e ↦ e.NoReuse) ∧
        s.udp.isBound (1, 7) = true ∧ ∀ id, s.udpKeyOf id ≠ some (1, 7) := by
  constructor
  · refine ⟨((((new 1).step .udpSocket).step (.bind 1 1 51000)).step .udpSocket).step
      (.sendto 2 [1] 2 7), ?_, by decide +kernel, by decide +kernel, by decide +kernel,
      by decide +kernel⟩
    refine .tail _ (.tail _ (.tail _ (.tail _ (.start ⟨1, rfl⟩) ?_) ?_) ?_) ?_ <;>
      exact ⟨trivial, trivial⟩
  · have hreach : ((((new 1).step .udpSocket).step (.bind 1 1 7)).step
        (.bind 1 1 8)).ReachableWhen fun _ e ↦ e.NoReuse := by
      refine .tail _ (.tail _ (.tail _ (.start ⟨1, rfl⟩) ?_) ?_) ?_ <;> exact ⟨trivial, trivial⟩
    exact ⟨_, hreach, by decide +kernel, hreach.fresh.view_ne (by decide +kernel)⟩

end Stack

end MiniTcp
