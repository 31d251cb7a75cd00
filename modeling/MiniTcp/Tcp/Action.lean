import Mathlib.Algebra.Group.Basic
import MiniTcp.Lib.Run
import MiniTcp.Tcp.Connection

/-!
# The actions an event consists of

Every event of a connection (a segment, a tick, a call of the application) is cut
into the actions the source performs one after another: take an acknowledgement,
take in data, send a chunk, send the FIN, repeat the front of the queue, and so
on.  An invariant is then checked once per action, not once per event and branch.

A `Guard` restricts the segments of a run: what their acknowledgement and their
data are known to satisfy in the state that meets them.
-/

namespace MiniTcp

/-- What an event leaves behind besides the new control block. -/
@[ext] structure Effect where
  /-- segments sent -/
  out : List Emission := []
  /-- bytes accepted by `send` -/
  accepted : Bytes := []
  /-- bytes handed out by `recv` -/
  returned : Bytes := []
  /-- the peer's SYN was taken -/
  syn : Bool := false
  /-- the peer's FIN was consumed in sequence -/
  fin : Bool := false

namespace Effect

instance : Zero Effect := ⟨{}⟩

instance : Add Effect :=
  ⟨fun a b ↦ ⟨a.out ++ b.out, a.accepted ++ b.accepted, a.returned ++ b.returned,
    a.syn || b.syn, a.fin || b.fin⟩⟩

@[simp] theorem zero_out : (0 : Effect).out = [] := rfl
@[simp] theorem zero_accepted : (0 : Effect).accepted = [] := rfl
@[simp] theorem zero_returned : (0 : Effect).returned = [] := rfl
@[simp] theorem zero_syn : (0 : Effect).syn = false := rfl
@[simp] theorem zero_fin : (0 : Effect).fin = false := rfl
@[simp] theorem add_out (a b : Effect) : (a + b).out = a.out ++ b.out := rfl
@[simp] theorem add_accepted (a b : Effect) : (a + b).accepted = a.accepted ++ b.accepted := rfl
@[simp] theorem add_returned (a b : Effect) : (a + b).returned = a.returned ++ b.returned := rfl
@[simp] theorem add_syn (a b : Effect) : (a + b).syn = (a.syn || b.syn) := rfl
@[simp] theorem add_fin (a b : Effect) : (a + b).fin = (a.fin || b.fin) := rfl

instance : AddMonoid Effect where
  add_assoc a b c := by ext <;> simp [Bool.or_assoc]
  zero_add a := by ext <;> simp
  add_zero a := by ext <;> simp
  nsmul := nsmulRec

end Effect

/-! ## Events of one connection -/

inductive ConnEvent where
  | segment (now : Instant) (seg : TcpHeader) (payload : Bytes)
  | tick (now : Instant)
  | send (now : Instant) (data : Bytes)
  | recv (len : ℕ)
  | close (now : Instant)
  | setRecvCap (cap : ℕ)
  | setSendCap (cap : ℕ)

namespace TcpConnection

/-- The effect of a segment.  The peer's SYN is taken on the way from SYN_SENT to
ESTABLISHED. -/
def SegmentResult.effect (s : TcpState) (r : SegmentResult) : Effect where
  out := r.out
  syn := s == .synSent && r.conn.state == .established
  fin := r.fin

def step (c : TcpConnection) : ConnEvent → TcpConnection × Effect
  | .segment now seg payload =>
      ((c.processSegment now seg payload).conn,
        (c.processSegment now seg payload).effect c.state)
  | .tick now => ((c.tick now).1, { out := (c.tick now).2 })
  | .send now data =>
      ((c.send now data).1, { out := (c.send now data).2, accepted := c.acceptedPrefix data })
  | .recv len => (c.recv len, { returned := c.returnedBytes len })
  | .close now => ((c.close now).1, { out := (c.close now).2 })
  | .setRecvCap cap => (c.setRecvCap cap, {})
  | .setSendCap cap => (c.setSendCap cap, {})

structure Inbound where
  irs : UInt32
  rcvNxt : UInt32
  oooBuffer : AssocMap UInt32 Bytes
  recvBuffer : Bytes
  recvBufferCap : ℕ

def inbound (c : TcpConnection) : Inbound :=
  ⟨c.irs, c.rcvNxt, c.oooBuffer, c.recvBuffer, c.recvBufferCap⟩

structure Identity where
  localAddr : UInt32
  remoteAddr : UInt32
  localPort : UInt16
  remotePort : UInt16
  iss : UInt32

def identity (c : TcpConnection) : Identity :=
  ⟨c.localAddr, c.remoteAddr, c.localPort, c.remotePort, c.iss⟩

end TcpConnection

namespace TcpState

/-- The states whose segments go through `process_ack`. -/
def readsAck : TcpState → Bool
  | .established | .finWait1 | .finWait2 | .closing | .closeWait | .lastAck => true
  | _ => false

def receives : TcpState → Bool
  | .established | .finWait1 | .finWait2 => true
  | _ => false

def sends : TcpState → Bool
  | .established | .closeWait => true
  | _ => false

def handshake : TcpState → Bool
  | .synSent | .synRcvd => true
  | _ => false

def synchronized : TcpState → Bool
  | .established | .finWait1 | .finWait2 | .closing | .closeWait | .lastAck | .timeWait => true
  | _ => false

def AfterReceive (s : TcpState) : Bool → TcpState → Prop
  | false, s' => s' = s ∨ s = .finWait1 ∧ s' = .finWait2
  | true, s' => s = .established ∧ s' = .closeWait ∨
      s = .finWait1 ∧ (s' = .timeWait ∨ s' = .closing) ∨ s = .finWait2 ∧ s' = .timeWait

theorem AfterReceive.handshake {s s' : TcpState} {fin : Bool} (h : s.AfterReceive fin s')
    (hrec : s.receives) : s'.handshake = false ∧ s' ≠ .listen := by
  cases fin with
  | false =>
      rcases h with rfl | ⟨rfl, rfl⟩
      · cases s' <;> simp_all [receives, TcpState.handshake]
      · decide
  | true =>
      rcases h with ⟨rfl, rfl⟩ | ⟨rfl, rfl | rfl⟩ | ⟨rfl, rfl⟩ <;> decide

end TcpState

/-! ## Actions -/

/-- What is known of the segments of a run, in the state that meets them. -/
structure Guard where
  /-- of a segment whose acknowledgement is taken -/
  ack : TcpConnection → TcpHeader → Prop := fun _ _ ↦ True
  /-- of a segment whose data is taken in -/
  data : TcpConnection → TcpHeader → Bytes → Prop := fun _ _ _ ↦ True
  /-- of a new value of `recv_buffer_cap` -/
  recvCap : TcpConnection → ℕ → Prop := fun _ _ ↦ True

open TcpConnection in
/-- One action of the source on a connection. -/
inductive Act (g : Guard) : TcpConnection → Effect → TcpConnection → Prop
  /-- the SYN,ACK that answers our SYN -/
  | synAck {c : TcpConnection} {seg : TcpHeader} (hst : c.state = .synSent)
      (hsyn : hasFlag seg.flags tcpSyn) (hack : hasFlag seg.flags tcpAck)
      (heq : seg.ackNum = c.sndNxt) (hg : g.ack c seg) :
      Act g c { syn := true }
        { removeAcked
            { c with
              irs := seg.seqNum
              rcvNxt := seg.seqNum + 1
              sndUna := seg.ackNum
              sndWnd := seg.window.toUInt32 } seg.ackNum with state := .established }
  /-- the acknowledgement of our SYN,ACK -/
  | finalAck {c : TcpConnection} {seg : TcpHeader} (hst : c.state = .synRcvd)
      (hack : hasFlag seg.flags tcpAck) (heq : seg.ackNum = c.sndNxt) (hg : g.ack c seg) :
      Act g c 0
        { removeAcked { c with sndUna := seg.ackNum } seg.ackNum with
          sndWnd := seg.window.toUInt32
          state := .established }
  | ack {c : TcpConnection} {seg : TcpHeader} (hst : c.state.readsAck)
      (hack : hasFlag seg.flags tcpAck) (hg : g.ack c seg) : Act g c 0 (c.processAck seg)
  | ackOnly {c : TcpConnection} (hst : c.state = .established ∨ c.state = .timeWait) :
      Act g c { out := [c.sendAckOnly] } c
  | receive {c : TcpConnection} {seg : TcpHeader} {payload : Bytes} (s : TcpState)
      (deadline : Instant) (hst : c.state.receives) (hg : g.data c seg payload)
      (hs : c.state.AfterReceive (c.receiveDataAndMaybeFin seg payload).fin s) :
      Act g c
        { out := (c.receiveDataAndMaybeFin seg payload).out
          fin := (c.receiveDataAndMaybeFin seg payload).fin }
        { (c.receiveDataAndMaybeFin seg payload).conn with
          state := s
          timeWaitDeadline := deadline }
  | chunk {c : TcpConnection} (now : Instant) (hst : c.state.sends) (hpos : c.chunkLen ≠ 0) :
      Act g c { out := (c.sendChunk now c.chunkLen).2 } (c.sendChunk now c.chunkLen).1
  | sendFin {c : TcpConnection} (now : Instant) (s : TcpState)
      (hst : c.state = .established ∧ s = .finWait1 ∨ c.state = .closeWait ∧ s = .lastAck)
      (hempty : c.sendPending = []) :
      Act g c { out := (c.queueAndSend now (tcpFin ||| tcpAck) []).2 }
        { (c.queueAndSend now (tcpFin ||| tcpAck) []).1 with
          state := s
          pendingClose := false }
  /-- set timers only -/
  | timers {c : TcpConnection} (deadline : Option Instant) (rto : Duration)
      (timeWait : Instant) :
      Act g c 0
        { c with probeDeadline := deadline, probeRto := rto, timeWaitDeadline := timeWait }
  | probe {c : TcpConnection} (hst : c.state.sends) :
      Act g c { out := [⟨.probe, c.sendSegment tcpAck (c.sndUna - 1) [0]⟩] } c
  | resend {c : TcpConnection} {front : UnackedSegment} {rest : List UnackedSegment}
      (now : Instant) (rto : Duration) (retries : ℕ)
      (hq : c.retransmitQueue = front :: rest) :
      Act g c { out := [⟨.retransmit, c.sendSegment front.flags front.seq front.data⟩] }
        { c with
          retransmitQueue :=
            { front with sentAt := now, rto := rto, retryCount := retries } :: rest }
  /-- the connection is given up or complete -/
  | abort {c : TcpConnection} : Act g c 0 { c with state := .closed }
  | finAcked {c : TcpConnection} (deadline : Instant) (hst : c.state = .closing) :
      Act g c 0 { c with state := .timeWait, timeWaitDeadline := deadline }
  | accept {c : TcpConnection} (data : Bytes) :
      Act g c { accepted := data } { c with sendPending := c.sendPending ++ data }
  | take {c : TcpConnection} (n : ℕ) :
      Act g c { returned := c.recvBuffer.take n } { c with recvBuffer := c.recvBuffer.drop n }
  | requestClose {c : TcpConnection} (hst : c.state.sends) :
      Act g c 0 { c with pendingClose := true }
  | recvCap {c : TcpConnection} (cap : ℕ) (hg : g.recvCap c cap) :
      Act g c 0 { c with recvBufferCap := cap }
  | sendCap {c : TcpConnection} (cap : ℕ) : Act g c 0 { c with sendPendingCap := cap }

abbrev Acts (g : Guard) := Run.Path (Act g)

/-! ## Every event is made of actions -/

namespace TcpConnection

theorem processAck_eq (c : TcpConnection) (seg : TcpHeader) : ∃ una queue wnd deadline rto,
    c.processAck seg =
      { c with
        sndUna := una
        retransmitQueue := queue
        sndWnd := wnd
        probeDeadline := deadline
        probeRto := rto } := by
  unfold processAck removeAcked
  dsimp only
  split_ifs <;> exact ⟨_, _, _, _, _, rfl⟩

@[simp] theorem processAck_state (c : TcpConnection) (seg : TcpHeader) :
    (c.processAck seg).state = c.state := by
  obtain ⟨una, queue, wnd, deadline, rto, h⟩ := processAck_eq c seg
  rw [h]

@[simp] theorem processAck_sndNxt (c : TcpConnection) (seg : TcpHeader) :
    (c.processAck seg).sndNxt = c.sndNxt := by
  obtain ⟨una, queue, wnd, deadline, rto, h⟩ := processAck_eq c seg
  rw [h]

@[simp] theorem processAck_inbound (c : TcpConnection) (seg : TcpHeader) :
    (c.processAck seg).inbound = c.inbound := by
  obtain ⟨una, queue, wnd, deadline, rto, h⟩ := processAck_eq c seg
  rw [h]
  rfl

/-- The acknowledgement of the segment is taken: it completes the handshake or
goes through `process_ack`. -/
def TakesAck (c : TcpConnection) (seg : TcpHeader) : Prop :=
  hasFlag seg.flags tcpAck ∧ ¬ hasFlag seg.flags tcpRst ∧
    (c.state.readsAck ∨ c.state.handshake ∧ seg.ackNum = c.sndNxt)

def TakesData (c : TcpConnection) (seg : TcpHeader) : Prop :=
  ¬ hasFlag seg.flags tcpRst ∧ (c.state.receives ∨
    c.state = .synRcvd ∧ hasFlag seg.flags tcpAck ∧ seg.ackNum = c.sndNxt)

end TcpConnection

/-- The event meets the guard in this state.  What is known of the data may depend
on the receiving half only. -/
def Guard.Admits (g : Guard) (c : TcpConnection) : ConnEvent → Prop
  | .segment _ seg payload =>
      (c.TakesAck seg → g.ack c seg) ∧
        (c.TakesData seg → ∀ c' : TcpConnection, c'.inbound = c.inbound → g.data c' seg payload)
  | .setRecvCap cap => g.recvCap c cap
  | _ => True

theorem Guard.admits_empty (c : TcpConnection) (e : ConnEvent) : Guard.Admits {} c e := by
  cases e <;> simp [Guard.Admits]

namespace TcpConnection

variable {g : Guard} {c : TcpConnection} {seg : TcpHeader} {payload : Bytes}

theorem flushLoop_acts (g : Guard) (now : Instant) (fuel : ℕ) (hst : c.state.sends) :
    Acts g c { out := (flushLoop now fuel c).2 } (flushLoop now fuel c).1 := by
  induction fuel generalizing c with
  | zero => exact .nil c
  | succ fuel ih =>
      rw [flushLoop]
      by_cases hlen : c.chunkLen = 0
      · rw [if_pos hlen]
        exact .nil c
      · rw [if_neg hlen]
        exact Run.Path.cons (Act.chunk now hst hlen) (ih hst)

theorem flushLoop_state (now : Instant) (fuel : ℕ) (c : TcpConnection) :
    (flushLoop now fuel c).1.state = c.state := by
  induction fuel generalizing c with
  | zero => rfl
  | succ fuel ih =>
      rw [flushLoop]
      split_ifs
      · rfl
      · exact ih _

theorem sendDeferredFin_acts (g : Guard) (now : Instant) (hst : c.state.sends) :
    Acts g c { out := (c.sendDeferredFin now).2 } (c.sendDeferredFin now).1 := by
  unfold sendDeferredFin
  by_cases hclose : c.pendingClose ∧ c.sendPending = []
  · rw [if_pos hclose]
    cases h : c.state with
    | established => exact .single (Act.sendFin now .finWait1 (.inl ⟨h, rfl⟩) hclose.2)
    | closeWait => exact .single (Act.sendFin now .lastAck (.inr ⟨h, rfl⟩) hclose.2)
    | _ => simp [h, TcpState.sends] at hst
  · rw [if_neg hclose]
    exact .nil c

theorem sends_iff {s : TcpState} : s.sends ↔ s = .established ∨ s = .closeWait := by
  cases s <;> simp [TcpState.sends]

theorem armProbe_acts (g : Guard) (now : Instant) (c : TcpConnection) :
    Acts g c 0 (c.armProbe now) := by
  unfold armProbe
  split_ifs
  · exact .single (Act.timers _ c.probeRto c.timeWaitDeadline)
  · exact .nil c

@[simp] theorem armProbe_state (now : Instant) (c : TcpConnection) :
    (c.armProbe now).state = c.state := by
  unfold armProbe
  split_ifs <;> rfl

theorem flushSend_acts (g : Guard) (now : Instant) (c : TcpConnection) :
    Acts g c { out := (c.flushSend now).2 } (c.flushSend now).1 := by
  unfold flushSend
  by_cases hst : c.state = .established ∨ c.state = .closeWait
  · rw [if_pos hst]
    have harm : (c.armProbe now).state.sends := by
      rw [armProbe_state]
      exact sends_iff.mpr hst
    have hloop := flushLoop_acts g now (c.armProbe now).sendPending.length harm
    have hfin := sendDeferredFin_acts g now
      (c := (flushLoop now (c.armProbe now).sendPending.length (c.armProbe now)).1)
      (by rw [flushLoop_state]; exact harm)
    exact (armProbe_acts g now c).append (hloop.trans hfin) rfl
  · rw [if_neg hst]
    exact .nil c

theorem tickProbe_acts (g : Guard) (now : Instant) (c : TcpConnection) :
    Acts g c { out := (c.tickProbe now).2 } (c.tickProbe now).1 := by
  unfold tickProbe
  by_cases hst : c.state = .established ∨ c.state = .closeWait
  · rw [if_pos hst]
    cases c.probeDeadline with
    | none => exact .nil c
    | some deadline =>
        dsimp only
        split_ifs
        · exact .cons (Act.probe (sends_iff.mpr hst))
            (.single (Act.timers _ _ c.timeWaitDeadline))
        · exact .nil c
  · rw [if_neg hst]
    exact .single (Act.timers none c.probeRto c.timeWaitDeadline)

theorem retransmitFront_acts (g : Guard) (now : Instant) (c : TcpConnection) :
    Acts g c { out := (c.retransmitFront now).2 } (c.retransmitFront now).1 := by
  unfold retransmitFront
  split
  · exact .nil c
  · rename_i front rest hq
    split_ifs
    · exact .single (Act.resend now _ _ hq)
    · exact .nil c

theorem tick_acts (g : Guard) (now : Instant) (c : TcpConnection) :
    Acts g c { out := (c.tick now).2 } (c.tick now).1 := by
  unfold tick
  by_cases hst : c.state = .timeWait
  · rw [if_pos hst]
    dsimp only
    split_ifs
    · exact .single Act.abort
    · exact .nil c
  · rw [if_neg hst]
    have hprobe := tickProbe_acts g now c
    dsimp only
    by_cases hgive : (c.tickProbe now).1.givesUp now
    · rw [if_pos hgive]
      exact hprobe.append (.single Act.abort) (by ext <;> simp)
    · rw [if_neg hgive]
      have hfront := retransmitFront_acts g now (c.tickProbe now).1
      have hflush := flushSend_acts g now ((c.tickProbe now).1.retransmitFront now).1
      exact (hprobe.trans hfront).append hflush rfl

/-! ### Segments -/

/-- The fuel is enough: the loop ends where no piece starts at `rcv_nxt`. -/
theorem lookup_splice (fuel : ℕ) (c : TcpConnection) (hfuel : c.oooBuffer.entries.length ≤ fuel) :
    (splice fuel c).1.oooBuffer.lookup (splice fuel c).1.rcvNxt = none := by
  induction fuel generalizing c with
  | zero =>
      have hnil : c.oooBuffer.entries = [] := List.length_eq_zero_iff.mp (by omega)
      simp [splice, AList.lookup, hnil]
  | succ fuel ih =>
      rw [splice]
      split
      · next h => exact h
      · next data h =>
          have hlen := AssocMap.length_erase_add_one h
          apply ih
          change (AList.erase c.rcvNxt c.oooBuffer).entries.length ≤ fuel
          omega

theorem splice_eq (fuel : ℕ) (c : TcpConnection) : ∃ nxt buf ooo,
    (splice fuel c).1 = { c with rcvNxt := nxt, recvBuffer := buf, oooBuffer := ooo } := by
  induction fuel generalizing c with
  | zero => exact ⟨c.rcvNxt, c.recvBuffer, c.oooBuffer, rfl⟩
  | succ fuel ih =>
      rw [splice]
      split
      · exact ⟨c.rcvNxt, c.recvBuffer, c.oooBuffer, rfl⟩
      · obtain ⟨nxt, buf, ooo, h⟩ := ih (appendInOrder _
          { c with oooBuffer := AList.erase c.rcvNxt c.oooBuffer })
        exact ⟨nxt, buf, ooo, h⟩

@[simp] theorem appendInOrder_nil (c : TcpConnection) : appendInOrder [] c = c := by
  simp [appendInOrder]

theorem receive_of_eq (payload : Bytes) (h : seg.seqNum = c.rcvNxt) :
    (c.receiveDataAndMaybeFin seg payload).conn =
        (let c₂ := (splice c.oooBuffer.entries.length (c.appendInOrder payload)).1
        if hasFlag seg.flags tcpFin then { c₂ with rcvNxt := c₂.rcvNxt + 1 } else c₂) ∧
      (c.receiveDataAndMaybeFin seg payload).fin = hasFlag seg.flags tcpFin := by
  have hc₁ : (if payload.isEmpty then c else c.appendInOrder payload) =
      c.appendInOrder payload := by
    cases payload with
    | nil => simp
    | cons b l => rfl
  rw [receiveDataAndMaybeFin, if_pos h]
  exact ⟨by rw [hc₁]; rfl, rfl⟩

theorem receive_of_gt (payload : Bytes) (hne : seg.seqNum ≠ c.rcvNxt) (h : seg.seqNum > c.rcvNxt) :
    (c.receiveDataAndMaybeFin seg payload).conn =
        (if !payload.isEmpty && c.bufferedBytes + payload.length ≤ c.recvBufferCap then
          { c with oooBuffer := AList.insert seg.seqNum payload c.oooBuffer }
        else c) ∧
      (c.receiveDataAndMaybeFin seg payload).fin = false := by
  rw [receiveDataAndMaybeFin, if_neg hne, if_pos h]
  exact ⟨rfl, rfl⟩

theorem receive_of_lt (payload : Bytes) (hne : seg.seqNum ≠ c.rcvNxt)
    (h : ¬ seg.seqNum > c.rcvNxt) :
    (c.receiveDataAndMaybeFin seg payload).conn = c ∧
      (c.receiveDataAndMaybeFin seg payload).fin = false := by
  rw [receiveDataAndMaybeFin, if_neg hne, if_neg h]
  exact ⟨rfl, rfl⟩

theorem receive_out (c : TcpConnection) (seg : TcpHeader) (payload : Bytes) :
    ∀ m ∈ (c.receiveDataAndMaybeFin seg payload).out,
      m = (c.receiveDataAndMaybeFin seg payload).conn.sendAckOnly := by
  intro m hm
  unfold receiveDataAndMaybeFin at hm ⊢
  by_cases h₁ : seg.seqNum = c.rcvNxt
  · simp only [if_pos h₁] at hm ⊢
    split_ifs at hm <;> simp_all
  · by_cases h₂ : seg.seqNum > c.rcvNxt
    · simp only [if_neg h₁, if_pos h₂] at hm ⊢
      exact List.mem_singleton.mp hm
    · simp only [if_neg h₁, if_neg h₂] at hm ⊢
      split_ifs at hm <;> simp_all

theorem receive_eq (c : TcpConnection) (seg : TcpHeader) (payload : Bytes) : ∃ nxt buf ooo,
    (c.receiveDataAndMaybeFin seg payload).conn =
      { c with rcvNxt := nxt, recvBuffer := buf, oooBuffer := ooo } := by
  by_cases h₁ : seg.seqNum = c.rcvNxt
  · obtain ⟨nxt, buf, ooo, h⟩ := splice_eq c.oooBuffer.entries.length (c.appendInOrder payload)
    rw [(receive_of_eq payload h₁).1, h]
    dsimp only
    split_ifs
    · exact ⟨nxt + 1, buf, ooo, rfl⟩
    · exact ⟨nxt, buf, ooo, rfl⟩
  · by_cases h₂ : seg.seqNum > c.rcvNxt
    · rw [(receive_of_gt payload h₁ h₂).1]
      split_ifs
      · exact ⟨c.rcvNxt, c.recvBuffer, _, rfl⟩
      · exact ⟨c.rcvNxt, c.recvBuffer, c.oooBuffer, rfl⟩
    · rw [(receive_of_lt payload h₁ h₂).1]
      exact ⟨c.rcvNxt, c.recvBuffer, c.oooBuffer, rfl⟩

theorem receive_state (c : TcpConnection) (seg : TcpHeader) (payload : Bytes) :
    (c.receiveDataAndMaybeFin seg payload).conn.state = c.state := by
  obtain ⟨nxt, buf, ooo, h⟩ := receive_eq c seg payload
  rw [h]

theorem processAck_acts (hst : c.state.readsAck)
    (hg : hasFlag seg.flags tcpAck → g.ack c seg) : Acts g c 0 (c.processAck seg) := by
  by_cases hack : hasFlag seg.flags tcpAck
  · exact .single (Act.ack hst hack (hg hack))
  · rw [processAck, if_neg hack]
    exact .nil c

theorem receive_acts {c' : TcpConnection} (s : TcpState) (deadline : Instant)
    (hc' : c' = { (c.receiveDataAndMaybeFin seg payload).conn with
      state := s, timeWaitDeadline := deadline })
    (hst : c.state.receives) (hg : g.data c seg payload)
    (hs : c.state.AfterReceive (c.receiveDataAndMaybeFin seg payload).fin s) :
    Acts g c
      { out := (c.receiveDataAndMaybeFin seg payload).out
        fin := (c.receiveDataAndMaybeFin seg payload).fin } c' :=
  hc' ▸ .single (Act.receive s deadline hst hg hs)

theorem receive_established_acts (g : Guard) (seg : TcpHeader) (payload : Bytes)
    (hst : c.state = .established) (hg : g.data c seg payload) :
    Acts g c
      { out := (c.receiveDataAndMaybeFin seg payload).out
        fin := (c.receiveDataAndMaybeFin seg payload).fin }
      (if (c.receiveDataAndMaybeFin seg payload).fin then
        { (c.receiveDataAndMaybeFin seg payload).conn with state := .closeWait }
      else (c.receiveDataAndMaybeFin seg payload).conn) := by
  have hstate := receive_state c seg payload
  have hrec : c.state.receives := by rw [hst]; rfl
  by_cases hfin : (c.receiveDataAndMaybeFin seg payload).fin = true
  · rw [if_pos hfin]
    refine receive_acts .closeWait _ rfl hrec hg ?_
    rw [hfin, hst]
    exact .inl ⟨rfl, rfl⟩
  · rw [if_neg hfin]
    refine receive_acts _ _ rfl hrec hg ?_
    rw [Bool.not_eq_true] at hfin
    rw [hfin]
    exact .inl hstate

theorem synSentSegment_acts (hst : c.state = .synSent)
    (hg : hasFlag seg.flags tcpAck → seg.ackNum = c.sndNxt → g.ack c seg) :
    Acts g c ((c.synSentSegment seg).effect .synSent) (c.synSentSegment seg).conn := by
  unfold synSentSegment
  split_ifs with h
  · simp only [Bool.and_eq_true, beq_iff_eq] at h
    exact .cons (Act.synAck hst h.1.1 h.1.2 h.2 (hg h.1.2 h.2)) (.single (Act.ackOnly (.inl rfl)))
  · rw [SegmentResult.effect, hst]
    exact .nil c

theorem synRcvdSegment_acts (hst : c.state = .synRcvd)
    (hack : hasFlag seg.flags tcpAck → seg.ackNum = c.sndNxt → g.ack c seg)
    (hdata : hasFlag seg.flags tcpAck → seg.ackNum = c.sndNxt →
      ∀ c' : TcpConnection, c'.inbound = c.inbound → g.data c' seg payload) :
    Acts g c
      { out := (c.synRcvdSegment seg payload).out, fin := (c.synRcvdSegment seg payload).fin }
      (c.synRcvdSegment seg payload).conn := by
  unfold synRcvdSegment
  by_cases h : hasFlag seg.flags tcpAck && seg.ackNum == c.sndNxt
  · rw [if_pos h]
    simp only [Bool.and_eq_true, beq_iff_eq] at h
    have hfirst := Act.finalAck hst h.1 h.2 (hack h.1 h.2)
    dsimp only
    by_cases hpay : !payload.isEmpty || hasFlag seg.flags tcpFin
    · rw [if_pos hpay]
      refine Run.Path.append (.single hfirst) (receive_established_acts g seg payload ?_
        (hdata h.1 h.2 _ ?_)) ?_ <;> rfl
    · rw [if_neg hpay]
      exact .single hfirst
  · rw [if_neg h]
    exact .nil c

theorem establishedSegment_acts (now : Instant) (hst : c.state = .established)
    (hack : hasFlag seg.flags tcpAck → g.ack c seg)
    (hdata : ∀ c' : TcpConnection, c'.inbound = c.inbound → g.data c' seg payload) :
    Acts g c
      { out := (c.establishedSegment now seg payload).out
        fin := (c.establishedSegment now seg payload).fin }
      (c.establishedSegment now seg payload).conn := by
  have h₁ := processAck_acts (by rw [hst]; rfl) hack
  have h₂ := receive_established_acts g seg payload
    ((processAck_state c seg).trans hst) (hdata _ (processAck_inbound c seg))
  have h₃ := flushSend_acts g now
    (if ((c.processAck seg).receiveDataAndMaybeFin seg payload).fin then
      { ((c.processAck seg).receiveDataAndMaybeFin seg payload).conn with state := .closeWait }
    else ((c.processAck seg).receiveDataAndMaybeFin seg payload).conn)
  unfold establishedSegment
  dsimp only
  refine (h₁.trans h₂).append h₃ ?_
  ext <;> simp

theorem finWait1Segment_conn (seg : TcpHeader) (payload : Bytes) (now : Instant)
    (hst : c.state = .finWait1) :
    ∃ s deadline, (c.finWait1Segment now seg payload).conn =
        { ((c.processAck seg).receiveDataAndMaybeFin seg payload).conn with
          state := s
          timeWaitDeadline := deadline } ∧
      (c.processAck seg).state.AfterReceive
        ((c.processAck seg).receiveDataAndMaybeFin seg payload).fin s := by
  have hst₁ : (c.processAck seg).state = .finWait1 := (processAck_state c seg).trans hst
  have hstate := receive_state (c.processAck seg) seg payload
  unfold finWait1Segment
  dsimp only
  generalize (hasFlag seg.flags tcpAck && seg.ackNum == (c.processAck seg).sndNxt) = acked
  generalize (c.processAck seg).receiveDataAndMaybeFin seg payload = r at hstate ⊢
  obtain ⟨conn, out, fin⟩ := r
  rw [hst₁]
  cases acked <;> cases fin
  · exact ⟨conn.state, conn.timeWaitDeadline, rfl, .inl (hstate.trans hst₁)⟩
  · exact ⟨.closing, conn.timeWaitDeadline, rfl, .inr (.inl ⟨rfl, .inr rfl⟩)⟩
  · exact ⟨.finWait2, conn.timeWaitDeadline, rfl, .inr ⟨rfl, rfl⟩⟩
  · exact ⟨.timeWait, now + timeWaitDuration, rfl, .inr (.inl ⟨rfl, .inl rfl⟩)⟩

theorem finWait1Segment_acts (now : Instant) (hst : c.state = .finWait1)
    (hack : hasFlag seg.flags tcpAck → g.ack c seg)
    (hdata : ∀ c' : TcpConnection, c'.inbound = c.inbound → g.data c' seg payload) :
    Acts g c
      { out := (c.finWait1Segment now seg payload).out
        fin := (c.finWait1Segment now seg payload).fin }
      (c.finWait1Segment now seg payload).conn := by
  obtain ⟨s, deadline, hconn, hafter⟩ :=
    finWait1Segment_conn seg payload now hst
  have h₁ := processAck_acts (by rw [hst]; rfl) hack
  have h₂ := receive_acts (g := g) s deadline hconn (by rw [processAck_state, hst]; rfl)
    (hdata _ (processAck_inbound c seg)) hafter
  exact h₁.append h₂ (by ext <;> simp [finWait1Segment])

theorem finWait2Segment_acts (now : Instant) (hst : c.state = .finWait2)
    (hack : hasFlag seg.flags tcpAck → g.ack c seg)
    (hdata : ∀ c' : TcpConnection, c'.inbound = c.inbound → g.data c' seg payload) :
    Acts g c
      { out := (c.finWait2Segment now seg payload).out
        fin := (c.finWait2Segment now seg payload).fin }
      (c.finWait2Segment now seg payload).conn := by
  have hst₁ : (c.processAck seg).state = .finWait2 := (processAck_state c seg).trans hst
  have hstate := receive_state (c.processAck seg) seg payload
  have hrec : (c.processAck seg).state.receives := by rw [hst₁]; rfl
  have hd := hdata _ (processAck_inbound c seg)
  refine (processAck_acts (by rw [hst]; rfl) hack).append ?_
    (b := { out := (c.finWait2Segment now seg payload).out
            fin := (c.finWait2Segment now seg payload).fin }) (by ext <;> simp)
  unfold finWait2Segment
  dsimp only
  by_cases hfin : ((c.processAck seg).receiveDataAndMaybeFin seg payload).fin = true
  · rw [if_pos hfin]
    refine receive_acts .timeWait _ rfl hrec hd ?_
    rw [hfin, hst₁]
    exact .inr (.inr ⟨rfl, rfl⟩)
  · rw [if_neg hfin]
    refine receive_acts _ _ rfl hrec hd ?_
    rw [Bool.not_eq_true] at hfin
    rw [hfin]
    exact .inl hstate

theorem closingSegment_acts (now : Instant) (hst : c.state = .closing)
    (hack : hasFlag seg.flags tcpAck → g.ack c seg) :
    Acts g c { out := (c.closingSegment now seg).out, fin := (c.closingSegment now seg).fin }
      (c.closingSegment now seg).conn := by
  have h₁ := processAck_acts (by rw [hst]; rfl) hack
  unfold closingSegment
  dsimp only
  split_ifs
  · exact h₁.append (.single (Act.finAcked _ ((processAck_state c seg).trans hst))) rfl
  · exact h₁

theorem closeWaitSegment_acts (now : Instant) (hst : c.state = .closeWait)
    (hack : hasFlag seg.flags tcpAck → g.ack c seg) :
    Acts g c { out := (c.closeWaitSegment now seg).out, fin := (c.closeWaitSegment now seg).fin }
      (c.closeWaitSegment now seg).conn :=
  (processAck_acts (by rw [hst]; rfl) hack).append (flushSend_acts g now _)
    (by ext <;> simp [closeWaitSegment])

theorem lastAckSegment_acts (hst : c.state = .lastAck)
    (hack : hasFlag seg.flags tcpAck → g.ack c seg) :
    Acts g c { out := (c.lastAckSegment seg).out, fin := (c.lastAckSegment seg).fin }
      (c.lastAckSegment seg).conn := by
  have h₁ := processAck_acts (by rw [hst]; rfl) hack
  unfold lastAckSegment
  dsimp only
  split_ifs
  · exact h₁.append (.single Act.abort) rfl
  · exact h₁

theorem timeWaitSegment_acts (g : Guard) (now : Instant) (seg : TcpHeader)
    (hst : c.state = .timeWait) :
    Acts g c { out := (c.timeWaitSegment now seg).out, fin := (c.timeWaitSegment now seg).fin }
      (c.timeWaitSegment now seg).conn := by
  unfold timeWaitSegment
  split_ifs
  · exact .cons (Act.ackOnly (.inr hst)) (.single (Act.timers c.probeDeadline c.probeRto _))
  · exact .nil c

theorem processSegment_acts (now : Instant) (hg : g.Admits c (.segment now seg payload)) :
    Acts g c ((c.processSegment now seg payload).effect c.state)
      (c.processSegment now seg payload).conn := by
  obtain ⟨hack, hdata⟩ := hg
  unfold processSegment
  by_cases hrst : hasFlag seg.flags tcpRst ∧ c.state ≠ .closed ∧ c.state ≠ .listen
  · rw [if_pos hrst]
    have heff : SegmentResult.effect c.state ⟨{ c with state := .closed }, [], false, false⟩
        = 0 := by ext <;> simp [SegmentResult.effect]
    rw [heff]
    exact .single Act.abort
  · rw [if_neg hrst]
    -- outside CLOSED and LISTEN the segment carries no RST, so the guard applies
    have hnot : c.state ≠ .closed → c.state ≠ .listen → ¬ hasFlag seg.flags tcpRst :=
      fun h₁ h₂ h₃ ↦ hrst ⟨h₃, h₁, h₂⟩
    have hread (h : c.state.readsAck) (hf : hasFlag seg.flags tcpAck) : g.ack c seg :=
      hack ⟨hf, hnot (by rintro e; simp [e, TcpState.readsAck] at h)
        (by rintro e; simp [e, TcpState.readsAck] at h), .inl h⟩
    have hshake (h : c.state.handshake) (hf : hasFlag seg.flags tcpAck)
        (heq : seg.ackNum = c.sndNxt) : g.ack c seg :=
      hack ⟨hf, hnot (by rintro e; simp [e, TcpState.handshake] at h)
        (by rintro e; simp [e, TcpState.handshake] at h), .inr ⟨h, heq⟩⟩
    have htake (h : c.state.receives) :=
      hdata ⟨hnot (by rintro e; simp [e, TcpState.receives] at h)
        (by rintro e; simp [e, TcpState.receives] at h), .inl h⟩
    cases hst : c.state with
    | closed => exact .nil c
    | listen => exact .nil c
    | synSent => exact synSentSegment_acts hst (hshake (by rw [hst]; rfl))
    | synRcvd =>
        exact synRcvdSegment_acts hst (hshake (by rw [hst]; rfl)) fun hf heq ↦
          hdata ⟨hnot (by simp [hst]) (by simp [hst]), .inr ⟨hst, hf, heq⟩⟩
    | established =>
        exact establishedSegment_acts now hst (hread (by rw [hst]; rfl)) (htake (by rw [hst]; rfl))
    | finWait1 =>
        exact finWait1Segment_acts now hst (hread (by rw [hst]; rfl)) (htake (by rw [hst]; rfl))
    | finWait2 =>
        exact finWait2Segment_acts now hst (hread (by rw [hst]; rfl)) (htake (by rw [hst]; rfl))
    | closing => exact closingSegment_acts now hst (hread (by rw [hst]; rfl))
    | closeWait => exact closeWaitSegment_acts now hst (hread (by rw [hst]; rfl))
    | lastAck => exact lastAckSegment_acts hst (hread (by rw [hst]; rfl))
    | timeWait => exact timeWaitSegment_acts g now seg hst

theorem close_acts (g : Guard) (now : Instant) (c : TcpConnection) :
    Acts g c { out := (c.close now).2 } (c.close now).1 := by
  unfold close
  split
  case h_1 hst | h_2 hst =>
    exact .append (.single (Act.requestClose (by rw [hst]; rfl))) (flushSend_acts g now _)
      (zero_add _).symm
  case h_3 | h_4 => exact .single Act.abort
  case h_5 => exact .nil c

/-- Every event a guard admits is made of actions under that guard. -/
theorem step_acts {e : ConnEvent} (hg : g.Admits c e) :
    Acts g c (c.step e).2 (c.step e).1 := by
  cases e with
  | segment now seg payload => exact processSegment_acts now hg
  | tick now => exact tick_acts g now c
  | send now data =>
      exact Run.Path.append (.single (Act.accept (c.acceptedPrefix data)))
        (flushSend_acts g now _) (by ext <;> simp [step, send])
  | recv len => exact .single (Act.take _)
  | close now => exact close_acts g now c
  | setRecvCap cap => exact .single (Act.recvCap cap hg)
  | setSendCap cap => exact .single (Act.sendCap cap)

end TcpConnection

end MiniTcp
