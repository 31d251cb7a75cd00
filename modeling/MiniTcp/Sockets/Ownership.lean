import MiniTcp.Lib.Registry
import MiniTcp.Sockets.SocketMap
import MiniTcp.Tcp.AcceptQueue
import MiniTcp.Tcp.Drain

/-!
# Who holds a connection

A connection the application is not done with should be within its reach: as the
connection of an open socket, or in an accept queue.  The handshake of `connect` can end
long after the call has, so a connection that waits for its SYN,ACK counts as well.
`connect` on a socket that has a connection forgets it.  `close` gives up the socket at
once, and by design a connection whose pending bytes do not fit into the window stays
established until they are sent.
-/

namespace MiniTcp

namespace TcpState

/-- Our FIN is on its way, or nothing is left of the connection. -/
def finished : TcpState → Bool
  | .finWait1 | .finWait2 | .closing | .lastAck | .timeWait | .closed => true
  | _ => false

theorem AfterReceive.finished {s s' : TcpState} {fin : Bool} (h : s.AfterReceive fin s')
    (hrec : s.receives) (hne : s ≠ .established) : s'.finished := by
  have hs : s = .finWait1 ∨ s = .finWait2 := by
    cases s <;> simp_all [receives]
  cases fin with
  | false =>
      rcases h with rfl | ⟨-, rfl⟩
      · rcases hs with rfl | rfl <;> rfl
      · rfl
  | true =>
      rcases h with ⟨hest, -⟩ | ⟨-, rfl | rfl⟩ | ⟨-, rfl⟩
      · exact absurd hest hne
      all_goals rfl

end TcpState

namespace TcpConnection

variable {c c' : TcpConnection}

/-- The application can still read, write and close. -/
def Usable (c : TcpConnection) : Prop :=
  c.state = .established ∨ c.state = .closeWait ∧ c.pendingClose = false

/-- It can, or it will when the handshake of `connect` ends. -/
def Wanted (c : TcpConnection) : Prop := c.state = .synSent ∨ c.Usable

/-- Neither wanted nor on its way to an accept queue. -/
def Settling (c : TcpConnection) : Prop := ¬ c.Wanted ∧ c.state ≠ .synRcvd

theorem not_wanted_of_finished (h : c.state.finished) : ¬ c.Wanted := by
  rintro (hs | hs | ⟨hs, -⟩) <;>
    · rw [hs] at h
      cases h

end TcpConnection

namespace Act

open TcpConnection

variable {g : Guard} {c c' : TcpConnection} {a : Effect}

theorem settling (hact : Act g c a c') (h : c.Settling) : c'.Settling := by
  refine ⟨?_, hact.not_synRcvd h.2⟩
  have hsame {c₁ : TcpConnection} (hstate : c₁.state = c.state)
      (hpending : c₁.pendingClose = c.pendingClose) : ¬ c₁.Wanted := by
    intro hw
    rw [Wanted, Usable, hstate, hpending] at hw
    exact h.1 hw
  cases hact with
  | synAck hst => exact absurd (.inl hst) h.1
  | finalAck hst => exact absurd hst h.2
  | @ack seg =>
      obtain ⟨una, queue, wnd, deadline, rto, hack⟩ := processAck_eq c seg
      rw [hack]
      exact hsame rfl rfl
  | receive s deadline hst hg hs =>
      -- an established connection is wanted, so this is one of the two FIN_WAIT states
      have hne : c.state ≠ .established := fun hest ↦ h.1 (.inr (.inl hest))
      exact not_wanted_of_finished (hs.finished hst hne)
  | sendFin now s hst =>
      rcases hst with ⟨hest, -⟩ | ⟨-, rfl⟩
      · exact absurd (.inr (.inl hest)) h.1
      · exact not_wanted_of_finished rfl
  | abort | finAcked => exact not_wanted_of_finished rfl
  | requestClose =>
      rintro (hsyn | hest | ⟨-, hpending⟩)
      · exact h.1 (.inl hsyn)
      · exact h.1 (.inr (.inl hest))
      · cases hpending
  | _ => exact hsame rfl rfl

end Act

namespace TcpConnection

variable {c : TcpConnection}

theorem Settling.step (h : c.Settling) (e : ConnEvent) : (c.step e).1.Settling :=
  (step_acts (Guard.admits_empty c e)).invariant (P := fun c (_ : Effect) ↦ c.Settling)
    (w := 0) (fun _ _ _ _ hc hact ↦ hact.settling hc) h

theorem wanted_of_step {e : ConnEvent} (h : (c.step e).1.Wanted) :
    c.Wanted ∨ c.state = .synRcvd := by
  by_contra hno
  rw [not_or] at hno
  exact (Settling.step hno e).1 h

theorem not_wanted_of_synRcvd (hst : c.state = .synRcvd) : ¬ c.Wanted := by
  rintro (hs | hs | ⟨hs, -⟩) <;>
    · rw [hst] at hs
      cases hs

theorem flushSend_of_synRcvd (now : Instant) (hst : c.state = .synRcvd) :
    (c.flushSend now).1 = c := by
  rw [flushSend_of_not_sends now (by rw [hst]; rfl)]

/-- The passive end of a handshake puts the key into an accept queue. -/
theorem enqueue_of_wanted {e : ConnEvent} (hst : c.state = .synRcvd) (h : (c.step e).1.Wanted) :
    ∃ now seg payload, e = .segment now seg payload ∧
      (c.processSegment now seg payload).enqueue = true := by
  cases e with
  | segment now seg payload =>
      refine ⟨now, seg, payload, rfl, ?_⟩
      simp only [step, processSegment, hst] at h ⊢
      split_ifs at h ⊢
      · exact absurd h (not_wanted_of_finished rfl)
      · unfold synRcvdSegment at h ⊢
        dsimp only at h ⊢
        split_ifs at h ⊢
        · rfl
        · rfl
        · rfl
        · exact absurd h (not_wanted_of_synRcvd hst)
  | tick now =>
      refine absurd h ?_
      rcases tick_cases now c with ⟨hclosed | ⟨htw, -⟩, -⟩ | ⟨c₂, hst₂, -, -, htick⟩
      · exact not_wanted_of_finished (by rw [step, hclosed]; rfl)
      · rw [hst] at htw
        cases htw
      · have hst₂ := hst₂.trans hst
        rw [step, htick, flushSend_of_synRcvd now hst₂]
        exact not_wanted_of_synRcvd hst₂
  | send now data =>
      have hflush := flushSend_of_synRcvd
        (c := { c with sendPending := c.sendPending ++ c.acceptedPrefix data }) now hst
      exact absurd h (not_wanted_of_synRcvd ((congrArg state hflush).trans hst))
  | close now =>
      refine absurd h ?_
      simp only [step, close, hst]
      exact not_wanted_of_synRcvd hst
  | recv len | setRecvCap cap | setSendCap cap => exact absurd h (not_wanted_of_synRcvd hst)

theorem close_of_sends (now : Instant) (hst : c.state.sends) :
    c.close now = { c with pendingClose := true }.flushSend now := by
  unfold close
  rcases sends_iff.mp hst with hs | hs <;>
    · rw [hs]

/-- All that is pending fits into the rest of the window. -/
def FitsWindow (c : TcpConnection) : Prop :=
  c.sendPending = [] ∨ c.bytesInFlight.toNat + c.sendPending.length ≤ c.sndWnd.toNat

theorem allowance_of_fitsWindow (h : c.FitsWindow) : c.allowance = c.sendPending.length := by
  unfold allowance
  rcases h with hnil | hfits
  · rw [hnil]
    exact Nat.zero_min _
  · rw [bytesInFlight] at hfits
    omega

/-- A connection is wanted after `close` only if it was established before and the window
did not take all that was pending. -/
theorem of_wanted_close {now : Instant} (h : (c.close now).1.Wanted) :
    c.state = .established ∧ ¬ c.FitsWindow := by
  cases hst : c.state with
  | established =>
      refine ⟨rfl, fun hfits ↦ ?_⟩
      rw [close_of_sends now (by rw [hst]; rfl)] at h
      obtain ⟨c₂, data, -, ⟨-, -, hflush⟩ | ⟨hnot, -⟩⟩ :=
        flushSend_cases (c := { c with pendingClose := true }) now (.inl hst)
      · rw [hflush] at h
        refine not_wanted_of_finished ?_ h
        dsimp only
        rw [if_pos hst]
        rfl
      · exact hnot ⟨rfl, allowance_of_fitsWindow (c := c) hfits⟩
  | closeWait =>
      rw [close_of_sends now (by rw [hst]; rfl)] at h
      have hpending : Settling { c with pendingClose := true } := by
        refine ⟨?_, by simp [hst]⟩
        rintro (hs | hs | ⟨-, hs⟩)
        · exact TcpState.noConfusion (hst.symm.trans hs)
        · exact TcpState.noConfusion (hst.symm.trans hs)
        · cases hs
      have hflush := (flushSend_acts {} now { c with pendingClose := true }).invariant
        (P := fun c (_ : Effect) ↦ c.Settling) (w := 0) (fun _ _ _ _ hc hact ↦ hact.settling hc)
        hpending
      exact absurd h hflush.1
  | _ =>
      simp only [close, hst] at h
      rcases h with hs | hs | ⟨hs, -⟩ <;> simp [hst] at hs

end TcpConnection

/-! ## The connections of a table -/

/-- The call hands out the key `k`. -/
def TableEvent.Hands (t : TcpTable) (k : ConnectionKey) : TableEvent → Prop
  | .connect _ _ localAddr remoteAddr remotePort =>
      k = ⟨localAddr, t.nextEphemeralPort, remoteAddr, remotePort⟩
  | .accept addr port => (t.accept addr port).2 = some k
  | _ => False

namespace TcpTable

variable {t : TcpTable} {e : TableEvent} {k : ConnectionKey} {H : ConnectionKey → Prop}

/-- Every wanted connection has an owner in `H` or waits for one. -/
def OwnedBy (H : ConnectionKey → Prop) (t : TcpTable) : Prop :=
  ∀ k c, t.lookup k = some c → c.Wanted → H k ∨ k ∈ t.waiting

theorem mem_waiting_step (h : k ∈ t.waiting) : k ∈ (t.step e).1.waiting ∨ e.Hands t k := by
  rcases t.waiting_step e with ⟨_, _, _, _, _, _, _, hperm⟩ | ⟨k', hk', hperm⟩ | ⟨-, heq⟩
  · exact .inl (hperm.mem_iff.mpr (List.mem_cons_of_mem _ h))
  · rcases List.mem_cons.mp (hperm.mem_iff.mp h) with rfl | h
    · right
      cases e with
      | accept addr port => exact hk'
      | _ => cases hk'
    · exact .inl h
  · rw [heq]
    exact .inl h

theorem mem_waiting_of_enqueue {c : TcpConnection} {now : Instant} {seg : TcpHeader}
    {data : Bytes} (hc : t.lookup k = some c) (hon : e.on k = some (.segment now seg data))
    (henq : (c.processSegment now seg data).enqueue = true) : k ∈ (t.step e).1.waiting := by
  cases TableEvent.on_cases hon with
  | segment hseg hkey =>
      subst hkey
      simp only [step, handleSegment, hseg, demux, hc, processSegment, henq, if_true]
      exact (waiting_pushAccept _ _ _).mem_iff.mpr List.mem_cons_self

theorem hands_of_opened {tr : Track} (h : e.opened t k = some tr) (hw : tr.conn.Wanted) :
    e.Hands t k := by
  cases TableEvent.opened_cases h with
  | segment => exact absurd hw (TcpConnection.not_wanted_of_synRcvd rfl)
  | connect hkey => exact hkey.symm

/-- A call leaves every wanted connection with its owner, or hands its key out. -/
theorem OwnedBy.step (h : t.OwnedBy H) (e : TableEvent) :
    (t.step e).1.OwnedBy fun k ↦ H k ∨ e.Hands t k := by
  intro k c' hc' hw
  rcases lookup_step hc' with ⟨tr, hopen, rfl⟩ | ⟨-, c, hc, rfl⟩
  · exact .inl (.inr (hands_of_opened hopen hw))
  · have hkeep (hwanted : c.Wanted) : (H k ∨ e.Hands t k) ∨ k ∈ (t.step e).1.waiting := by
      rcases h k c hc hwanted with hH | hwait
      · exact .inl (.inl hH)
      · rcases mem_waiting_step hwait with hwait | hhands
        · exact .inr hwait
        · exact .inl (.inr hhands)
    cases hon : e.on k with
    | none =>
        rw [hon] at hw
        exact hkeep hw
    | some ce =>
        rw [hon] at hw
        rcases TcpConnection.wanted_of_step hw with hwanted | hsyn
        · exact hkeep hwanted
        · obtain ⟨now, seg, data, rfl, henq⟩ := TcpConnection.enqueue_of_wanted hsyn hw
          exact .inr (mem_waiting_of_enqueue hc hon henq)

theorem OwnedBy.mono {H' : ConnectionKey → Prop} (h : t.OwnedBy H) (hle : ∀ k, H k → H' k) :
    t.OwnedBy H' := by
  intro k c hc hw
  exact (h k c hc hw).imp_left (hle k)

theorem OwnedBy.run (h : t.OwnedBy H) {es : List TableEvent}
    (hes : ∀ e ∈ es, ∀ t k, ¬ TableEvent.Hands t k e) : (t.run es).OwnedBy H := by
  induction es generalizing t with
  | nil => exact h
  | cons e es ih =>
      rw [List.forall_mem_cons] at hes
      refine ih ((h.step e).mono ?_) hes.2
      rintro k (hk | hk)
      · exact hk
      · exact absurd hk (hes.1 t k)

end TcpTable

/-! ## The connections of a stack -/

namespace Stack

variable {s : Stack} {e : StackEvent} {id : SocketId} {k : ConnectionKey}

/-- The application can reach the connection under `k`. -/
def Held (s : Stack) (k : ConnectionKey) : Prop :=
  (∃ id, s.connKeyOf id = some k) ∨ k ∈ s.tcp.waiting

/-- It can do so without the socket `id`. -/
def HeldBesides (s : Stack) (id : SocketId) (k : ConnectionKey) : Prop :=
  Registry.Besides s.connKeyOf id k ∨ k ∈ s.tcp.waiting

/-- `connect` is for TCP sockets and forgets no connection that is wanted and not held
otherwise; `close` is for connections that can send all they have, or that are held
otherwise. -/
def KeepsOwners (s : Stack) : StackEvent → Prop
  | .connect id _ _ remoteAddr remotePort _ => ∀ sock, s.socketOf id = some sock →
      sock.kind = .tcp ∧ ∀ k c, sock.connKey = some k → s.tcp.lookup k = some c → c.Wanted →
        k = s.dialKey remoteAddr remotePort ∨ s.HeldBesides id k
  | .close id _ _ => ∀ k c, s.connKeyOf id = some k → s.tcp.lookup k = some c →
      c.state = .established → c.FitsWindow ∨ s.HeldBesides id k
  | _ => True

def ConnectionsOwned (s : Stack) : Prop :=
  s.tcp.OwnedBy fun k ↦ ∃ id, s.connKeyOf id = some k

theorem not_hands_of_makes {te : TableEvent} (h : makes e te)
    (haccept : ∀ listener start pumps, e ≠ .accept listener start pumps)
    (hconnect : ∀ id now iss addr port pumps, e ≠ .connect id now iss addr port pumps)
    (t : TcpTable) (k : ConnectionKey) : ¬ te.Hands t k := by
  cases te with
  | accept =>
      cases e with
      | accept => exact absurd rfl (haccept _ _ _)
      | _ => cases h
  | connect =>
      cases e with
      | connect => exact absurd rfl (hconnect _ _ _ _ _ _)
      | _ => cases h
  | _ => exact id

theorem not_hands_of_mem_capCalls {key : ConnectionKey} {opts : SocketOptions} {te : TableEvent}
    (h : te ∈ capCalls key opts) (t : TcpTable) (k : ConnectionKey) : ¬ te.Hands t k := by
  rcases mem_capCalls h with ⟨v, rfl⟩ | ⟨v, rfl⟩ <;> exact id

/-- Only `accept`, `connect` and `close` change which connection a socket stands for. -/
theorem connKeyOf_step (hs : s.Fresh) (he : e.Immediate)
    (haccept : ∀ listener start pumps, e ≠ .accept listener start pumps)
    (hconnect : ∀ id now iss addr port pumps, e ≠ .connect id now iss addr port pumps)
    (hclose : ∀ id now pumps, e ≠ .close id now pumps) : (s.step e).connKeyOf = s.connKeyOf := by
  refine view_step_of_edit hs he ?_
  intro old new hedit
  cases hedit with
  | accept => exact absurd rfl (haccept _ _ _)
  | connect => exact absurd rfl (hconnect _ _ _ _ _ _)
  | close => exact absurd rfl (hclose _ _ _)
  | _ => rfl

theorem accept_of_acceptable {listener : SocketId} {l : Socket} {key : ConnectionKey}
    (h : s.acceptable listener = some (l, key)) :
    (s.tcp.accept l.listenAddr l.listenPort).2 = some key := by
  unfold acceptable at h
  split at h
  · cases h
  · split_ifs at h
    obtain ⟨key', hkey, heq⟩ := Option.map_eq_some_iff.mp h
    obtain ⟨rfl, rfl⟩ := Prod.mk.inj heq
    exact hkey

theorem ConnectionsOwned.accept (h : s.ConnectionsOwned) (hs : s.Fresh) (listener : SocketId)
    (start : Instant) : (s.step (.accept listener start [])).ConnectionsOwned := by
  cases hacc : s.acceptable listener with
  | none =>
      rw [step_accept, hacc]
      exact h
  | some p =>
      obtain ⟨l, key⟩ := p
      have hnew : s.connKeyOf s.nextSocketId = none := by
        rw [connKeyOf, hs _ le_rfl, Option.bind_none]
      have hkeys : (s.step (.accept listener start [])).connKeyOf =
          Function.update s.connKeyOf s.nextSocketId (some key) := view_accept hacc start
      rw [ConnectionsOwned, hkeys, tcp_accept hacc]
      refine ((TcpTable.OwnedBy.step h _).mono ?_).run fun te ↦ not_hands_of_mem_capCalls
      rintro k (⟨j, hj⟩ | hhands)
      · refine Registry.exists_update_iff.mpr (.inr ⟨j, ?_, hj⟩)
        rintro rfl
        rw [hnew] at hj
        cases hj
      · obtain rfl := Option.some.inj ((accept_of_acceptable hacc).symm.trans hhands)
        exact Registry.exists_update_iff.mpr (.inl rfl)

theorem ConnectionsOwned.connect (h : s.ConnectionsOwned) {now : Instant}
    {iss remoteAddr : UInt32} {remotePort : UInt16}
    (hok : s.KeepsOwners (.connect id now iss remoteAddr remotePort [])) :
    (s.step (.connect id now iss remoteAddr remotePort [])).ConnectionsOwned := by
  cases hsock : s.socketOf id with
  | none =>
      rw [step_connect, hsock]
      exact h
  | some sock =>
      obtain ⟨hkind, hold⟩ := hok sock hsock
      have hkeys : (s.step (.connect id now iss remoteAddr remotePort [])).connKeyOf =
          Function.update s.connKeyOf id (some (s.dialKey remoteAddr remotePort)) := by
        refine (view_connect hsock now iss remoteAddr remotePort).trans ?_
        dsimp only
        rw [if_pos hkind]
        rfl
      -- what the socket held before is not needed, or is about to be replaced
      have hbefore : s.tcp.OwnedBy fun k ↦
          k = s.dialKey remoteAddr remotePort ∨ Registry.Besides s.connKeyOf id k := by
        intro k c hc hw
        rcases h k c hc hw with ⟨j, hj⟩ | hwait
        · by_cases hid : j = id
          · subst hid
            rw [connKeyOf, hsock, Option.bind_some, if_pos hkind] at hj
            rcases hold k c hj hc hw with hk | hk | hwait
            · exact .inl (.inl hk)
            · exact .inl (.inr hk)
            · exact .inr hwait
          · exact .inl (.inr ⟨j, hid, hj⟩)
        · exact .inr hwait
      rw [ConnectionsOwned, hkeys, tcp_connect hsock]
      refine ((hbefore.step _).mono ?_).run fun te ↦ not_hands_of_mem_capCalls
      rintro k ((rfl | hk) | hhands)
      · exact Registry.exists_update_iff.mpr (.inl rfl)
      · exact Registry.exists_update_iff.mpr (.inr hk)
      · exact Registry.exists_update_iff.mpr (.inl (congrArg some hhands.symm))

theorem ConnectionsOwned.close (h : s.ConnectionsOwned) {now : Instant}
    (hok : s.KeepsOwners (.close id now [])) :
    (s.step (.close id now [])).ConnectionsOwned := by
  have hkeys : (s.step (.close id now [])).connKeyOf = Function.update s.connKeyOf id none :=
    view_close s id now
  have htcp := step_tcp (s := s) (e := .close id now []) rfl
  have hother {k : ConnectionKey} (hne : s.connKeyOf id ≠ some k)
      (hk : (∃ j, s.connKeyOf j = some k) ∨ k ∈ s.tcp.waiting) :
      (∃ j, Function.update s.connKeyOf id none j = some k) ∨ k ∈ s.tcp.waiting := by
    rcases hk with ⟨j, hj⟩ | hwait
    · refine .inl (Registry.exists_update_iff.mpr (.inr ⟨j, ?_, hj⟩))
      rintro rfl
      exact hne hj
    · exact .inr hwait
  rw [ConnectionsOwned, hkeys, htcp, calls]
  cases hid : s.connKeyOf id with
  | none =>
      intro k c hc hw
      exact hother (by simp [hid]) (h k c hc hw)
  | some key =>
      have hwaiting : (s.tcp.run [.close now key]).waiting = s.tcp.waiting :=
        TcpTable.waiting_withConnection key _
      intro k c' hc' hw
      rw [hwaiting]
      have hlook := (TcpTable.lookup_withConnection s.tcp key k _).symm.trans hc'
      split_ifs at hlook with hk
      · subst hk
        obtain ⟨c, hc, rfl⟩ := Option.map_eq_some_iff.mp hlook
        obtain ⟨hest, hfits⟩ := TcpConnection.of_wanted_close hw
        rcases (hok key c hid hc hest).resolve_left hfits with hk | hwait
        · exact .inl (Registry.exists_update_iff.mpr (.inr hk))
        · exact .inr hwait
      · refine hother ?_ (h k c' hlook hw)
        rw [hid]
        exact fun heq ↦ hk (Option.some.inj heq)

theorem ConnectionsOwned.step (h : s.ConnectionsOwned) (hs : s.Fresh) (he : e.Immediate)
    (hok : s.KeepsOwners e) : (s.step e).ConnectionsOwned := by
  cases e with
  | accept listener start pumps =>
      obtain rfl := he
      exact h.accept hs listener start
  | connect =>
      obtain rfl := he
      exact h.connect hok
  | close =>
      obtain rfl := he
      exact h.close hok
  | _ =>
      rw [ConnectionsOwned, connKeyOf_step hs he (by simp) (by simp) (by simp), step_tcp he]
      refine TcpTable.OwnedBy.run h fun te hte ↦ ?_
      exact not_hands_of_makes (makes_of_mem_calls hte) (by simp) (by simp)

/-- In every run whose calls keep the condition, the application can reach every connection
it is not done with. -/
theorem connections_owned (h : s.ReachableWhen KeepsOwners) {c : TcpConnection}
    (hc : s.tcp.lookup k = some c) (huse : c.Usable) : s.Held k := by
  have howned : s.ConnectionsOwned := by
    refine (h.invariant (P := fun s ↦ s.Fresh ∧ s.ConnectionsOwned) ?_ ?_).2
    · intro selfAddr
      refine ⟨fun id _ ↦ rfl, fun k c hc ↦ ?_⟩
      cases hc
    · intro s e he hok hs
      exact ⟨hs.1.step he, hs.2.step hs.1 he hok⟩
  exact howned k c hc (.inr huse)

/-- The acknowledgement that ends the handshake of `listening`. -/
def openingAck : Bytes :=
  Packet.bytes ⟨2, 1, ⟨5000, 80, 8, 101, 0x50, tcpAck, 1000, 0, 0⟩, []⟩

/-- A connection that was accepted, and one that is being opened. -/
def serving : Stack :=
  (((listening.step (.pump ⟨some openingAck, 0, 0, 0, 0⟩)).step (.accept 1 0 [])).step
    .socket).step (.connect 3 0 1000 2 9000 [])

theorem connections_owned_serving :
    serving.ReachableWhen KeepsOwners ∧ ∃ k c, serving.tcp.lookup k = some c ∧ c.Usable ∧
      serving.Held k := by
  have hreach : serving.ReachableWhen KeepsOwners := by
    refine .tail _ (.tail _ (.tail _ (.tail _ (.tail _ (.tail _ (.tail _ (.start ⟨1, rfl⟩)
      ?_) ?_) ?_) ?_) ?_) ?_) ?_
    rotate_right
    · refine ⟨?_, trivial⟩
      intro sock hsock
      obtain rfl := Option.some.inj (hsock.symm.trans (by decide +kernel :
        _ = some { kind := .tcp }))
      exact ⟨rfl, fun k c hk ↦ by cases hk⟩
    all_goals exact ⟨trivial, trivial⟩
  have hstate : (serving.tcp.lookup ⟨1, 80, 2, 5000⟩).map TcpConnection.state =
      some .established := by decide +kernel
  obtain ⟨c, hc, hest⟩ := Option.map_eq_some_iff.mp hstate
  exact ⟨hreach, _, c, hc, .inl hest, connections_owned hreach hc (.inl hest)⟩

/-- A second `connect` on a socket forgets its established connection, which stays. -/
theorem exists_connection_orphaned :
    ∃ (s : Stack) (k : ConnectionKey), s.Reachable ∧
      (s.tcp.lookup k).map (fun c ↦ (c.state, c.pendingClose)) = some (.established, false) ∧
      s.socketOf 1 ≠ none ∧ ¬ s.Held k := by
  let synAck := Packet.bytes ⟨2, 1, ⟨5000, 49152, 300, 1001, 80, tcpSyn ||| tcpAck, 1000, 0, 0⟩, []⟩
  have hreach : ((((new 1).step .socket).step
      (.connect 1 0 1000 2 5000 [⟨some synAck, 0, 0, 0, 0⟩])).step
        (.connect 1 0 2000 2 5001 [])).Reachable :=
    (((reachable_new 1).step _).step _).step _
  refine ⟨_, ⟨1, 49152, 2, 5000⟩, hreach, by decide +kernel, by decide +kernel, ?_⟩
  rintro (⟨id, hid⟩ | hwait)
  · exact hreach.reachableWhen.fresh.view_ne (by decide +kernel) id hid
  · exact absurd hwait (by decide +kernel)

end Stack

end MiniTcp
