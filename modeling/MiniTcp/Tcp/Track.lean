import MiniTcp.Lib.Serial
import MiniTcp.Tcp.Action

/-!
# The life of one connection

A `Track` is a control block together with what happened to it since it was
opened: everything it sent, accepted, returned and consumed, and the segments it
was given.  A track starts with the connection that `connect` registers or that a
SYN to a listening port creates, and takes one event after another.
-/

namespace MiniTcp

open Serial

/-! ## What was sent -/

def seqLen (flags : UInt8) (len : ℕ) : ℕ :=
  len + (hasFlag flags tcpSyn).toNat + (hasFlag flags tcpFin).toNat

theorem consumed_eq (flags : UInt8) (len : ℕ) :
    consumed flags len = UInt32.ofNat (seqLen flags len) := by
  unfold consumed seqLen
  cases hasFlag flags tcpSyn <;> cases hasFlag flags tcpFin <;> simp

namespace Emission

def flags (m : Emission) : UInt8 := m.packet.hdr.flags

def seq (m : Emission) : UInt32 := m.packet.hdr.seqNum

def data (m : Emission) : Bytes := m.packet.data

def queued (m : Emission) : Bool := m.origin == .queued

end Emission

/-- The payloads of the first transmissions, in order. -/
def sentBytes (out : List Emission) : Bytes := (out.filter Emission.queued).flatMap Emission.data

def sentLen (out : List Emission) : ℕ :=
  ((out.filter Emission.queued).map fun m ↦ seqLen m.flags m.data.length).sum

def finCount (out : List Emission) : ℕ :=
  out.countP fun m ↦ m.queued && hasFlag m.flags tcpFin

section Sent

variable (l l' : List Emission)

@[simp] theorem sentBytes_append : sentBytes (l ++ l') = sentBytes l ++ sentBytes l' := by
  simp [sentBytes]

@[simp] theorem sentLen_append : sentLen (l ++ l') = sentLen l + sentLen l' := by
  simp [sentLen]

@[simp] theorem finCount_append : finCount (l ++ l') = finCount l + finCount l' := by
  simp [finCount]

@[simp] theorem sentBytes_queued (p : Packet) : sentBytes [⟨.queued, p⟩] = p.data := by
  simp [sentBytes, Emission.queued, Emission.data]

@[simp] theorem sentLen_queued (p : Packet) :
    sentLen [⟨.queued, p⟩] = seqLen p.hdr.flags p.data.length := by
  simp [sentLen, Emission.queued, Emission.data, Emission.flags]

@[simp] theorem finCount_queued (p : Packet) :
    finCount [⟨.queued, p⟩] = (hasFlag p.hdr.flags tcpFin).toNat := by
  cases h : hasFlag p.hdr.flags tcpFin <;> simp [finCount, Emission.queued, Emission.flags, h]

variable {l}

theorem sentBytes_of_not_queued (h : ∀ m ∈ l, m.queued = false) : sentBytes l = [] := by
  rw [sentBytes, List.filter_eq_nil_iff.mpr (by simpa using h), List.flatMap_nil]

theorem sentLen_of_not_queued (h : ∀ m ∈ l, m.queued = false) : sentLen l = 0 := by
  rw [sentLen, List.filter_eq_nil_iff.mpr (by simpa using h), List.map_nil, List.sum_nil]

theorem finCount_of_not_queued (h : ∀ m ∈ l, m.queued = false) : finCount l = 0 := by
  rw [finCount, List.countP_eq_zero]
  intro m hm
  simp [h m hm]

end Sent

/-! ## Tracks -/

/-- The bytes taken in order: those already returned, then those still buffered. -/
def TcpConnection.received (c : TcpConnection) (w : Effect) : Bytes := w.returned ++ c.recvBuffer

def ConnEvent.header : ConnEvent → Option TcpHeader
  | .segment _ seg _ => some seg
  | _ => none

structure Track where
  conn : TcpConnection
  /-- everything since the connection was opened -/
  hist : Effect
  /-- the segments processed so far -/
  seen : List TcpHeader
  /-- since the FIN was queued, a segment with `ack_num = snd_nxt` was processed -/
  finAcked : Bool
  /-- the bytes accepted before the FIN was queued -/
  beforeFin : Bytes

namespace Track

def finSent (t : Track) : Bool := finCount t.hist.out != 0

def received (t : Track) : Bytes := t.conn.received t.hist

def acknowledges (nxt : UInt32) (seg : TcpHeader) : Bool :=
  hasFlag seg.flags tcpAck && seg.ackNum == nxt

def step (t : Track) (e : ConnEvent) : Track where
  conn := (t.conn.step e).1
  hist := t.hist + (t.conn.step e).2
  seen := t.seen ++ e.header.toList
  finAcked := t.finAcked || (t.finSent && e.header.any (acknowledges t.conn.sndNxt))
  beforeFin := if t.finSent then t.beforeFin
    else t.hist.accepted ++ (t.conn.step e).2.accepted

def active (now : Instant) (iss : UInt32) (key : ConnectionKey) : Track where
  conn := (TcpConnection.activeOpen now iss key).1
  hist := { out := (TcpConnection.activeOpen now iss key).2 }
  seen := []
  finAcked := false
  beforeFin := []

def passive (now : Instant) (iss : UInt32) (key : ConnectionKey) (seg : TcpHeader) : Track where
  conn := (TcpConnection.passiveOpen now iss key seg).1
  hist := { out := (TcpConnection.passiveOpen now iss key seg).2, syn := true }
  seen := [seg]
  finAcked := false
  beforeFin := []

def Opened (t : Track) : Prop :=
  (∃ now iss key, t = active now iss key) ∨ ∃ now iss key seg, t = passive now iss key seg

/-- Reached by events that meet the guard. -/
def Reachable (g : Guard) : Track → Prop :=
  Run.Reaches Opened (fun t e ↦ g.Admits t.conn e) step

variable {g : Guard} {t : Track} {P : TcpConnection → Effect → Prop}

theorem step_invariant
    (hact : ∀ c c' w a, P c w → Act g c a c' → P c' (w + a)) {e : ConnEvent}
    (hg : g.Admits t.conn e) (h : P t.conn t.hist) : P (t.step e).conn (t.step e).hist :=
  (TcpConnection.step_acts hg).invariant hact h

/-- An invariant that holds when a connection is opened and survives every action
holds throughout its life. -/
theorem Reachable.invariant (hopen : ∀ t, Opened t → P t.conn t.hist)
    (hact : ∀ c c' w a, P c w → Act g c a c' → P c' (w + a)) (h : Reachable g t) :
    P t.conn t.hist :=
  Run.Reaches.invariant (P := fun t ↦ P t.conn t.hist) hopen
    (fun _ _ _ hg ↦ step_invariant hact hg) h

end Track

end MiniTcp
