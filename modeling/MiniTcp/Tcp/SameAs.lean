import MiniTcp.Tcp.Host
import MiniTcp.Tcp.Inbound

/-!
# Connections up to the order of their buffered segments

`ooo_buffer` is a `BTreeMap`, here a list of entries, and storing an entry again moves it to
the front.  Two control blocks are the same if they differ at most in that order.  Nothing
that is sent depends on it: the window only counts the buffered bytes.
-/

namespace MiniTcp

namespace TcpConnection

variable {c c' : TcpConnection} {ooo : AssocMap UInt32 Bytes}

/-- The same control block, with `ooo_buffer` compared as a map. -/
structure SameAs (c' c : TcpConnection) : Prop where
  ooo : ∀ s, c'.oooBuffer.lookup s = c.oooBuffer.lookup s
  rest : c' = { c with oooBuffer := c'.oooBuffer }

theorem SameAs.refl (c : TcpConnection) : c.SameAs c := ⟨fun _ ↦ rfl, rfl⟩

theorem SameAs.symm (h : c'.SameAs c) : c.SameAs c' := by
  refine ⟨fun s ↦ (h.ooo s).symm, ?_⟩
  rw [h.rest]

theorem SameAs.trans {c'' : TcpConnection} (h' : c''.SameAs c') (h : c'.SameAs c) :
    c''.SameAs c := by
  refine ⟨fun s ↦ (h'.ooo s).trans (h.ooo s), ?_⟩
  have hrest := h'.rest
  rw [h.rest] at hrest
  exact hrest

theorem SameAs.weight (h : c'.SameAs c) :
    c'.oooBuffer.weight List.length = c.oooBuffer.weight List.length :=
  AssocMap.weight_congr List.length h.ooo

theorem SameAs.bufferedBytes (h : c'.SameAs c) : c'.bufferedBytes = c.bufferedBytes := by
  rw [TcpConnection.bufferedBytes, TcpConnection.bufferedBytes, h.weight, h.rest]

theorem SameAs.withState (h : c'.SameAs c) (s : TcpState) :
    { c' with state := s }.SameAs { c with state := s } := by
  refine ⟨h.ooo, ?_⟩
  rw [h.rest]

theorem SameAs.enterTimeWait (h : c'.SameAs c) (now : Instant) :
    (c'.enterTimeWait now).SameAs (c.enterTimeWait now) := by
  refine ⟨h.ooo, ?_⟩
  rw [h.rest]
  rfl

theorem sendSegment_withOoo (hw : ooo.weight List.length = c.oooBuffer.weight List.length)
    (flags : UInt8) (seq : UInt32) (data : Bytes) :
    { c with oooBuffer := ooo }.sendSegment flags seq data = c.sendSegment flags seq data := by
  have hbytes : { c with oooBuffer := ooo }.bufferedBytes = c.bufferedBytes :=
    congrArg (c.recvBuffer.length + ·) hw
  have hwindow : { c with oooBuffer := ooo }.advertiseWindow = c.advertiseWindow := by
    unfold advertiseWindow
    dsimp only
    rw [hbytes]
  rw [sendSegment, hwindow]
  rfl

theorem SameAs.sendAckOnly (h : c'.SameAs c) : c'.sendAckOnly = c.sendAckOnly := by
  have hw := h.weight
  rw [h.rest]
  exact congrArg (Emission.mk .ack) (sendSegment_withOoo hw tcpAck c.sndNxt [])

theorem queueAndSend_withOoo (hw : ooo.weight List.length = c.oooBuffer.weight List.length)
    (now : Instant) (flags : UInt8) (data : Bytes) :
    { c with oooBuffer := ooo }.queueAndSend now flags data =
      ({ (c.queueAndSend now flags data).1 with oooBuffer := ooo },
        (c.queueAndSend now flags data).2) := by
  rw [queueAndSend, sendSegment_withOoo hw]
  rfl

theorem flushLoop_withOoo (now : Instant) (fuel : ℕ)
    (hw : ooo.weight List.length = c.oooBuffer.weight List.length) :
    flushLoop now fuel { c with oooBuffer := ooo } =
      ({ (flushLoop now fuel c).1 with oooBuffer := ooo }, (flushLoop now fuel c).2) := by
  induction fuel generalizing c with
  | zero => rfl
  | succ fuel ih =>
      have hlen : { c with oooBuffer := ooo }.chunkLen = c.chunkLen := rfl
      have hchunk : { c with oooBuffer := ooo }.sendChunk now c.chunkLen =
          ({ (c.sendChunk now c.chunkLen).1 with oooBuffer := ooo },
            (c.sendChunk now c.chunkLen).2) := by
        rw [sendChunk, queueAndSend_withOoo hw]
        rfl
      have hrest := ih (c := (c.sendChunk now c.chunkLen).1) hw
      rw [flushLoop, flushLoop, hlen, hchunk]
      split_ifs
      · rfl
      · dsimp only
        rw [hrest]

theorem sendDeferredFin_withOoo (now : Instant)
    (hw : ooo.weight List.length = c.oooBuffer.weight List.length) :
    { c with oooBuffer := ooo }.sendDeferredFin now =
      ({ (c.sendDeferredFin now).1 with oooBuffer := ooo }, (c.sendDeferredFin now).2) := by
  unfold sendDeferredFin
  dsimp only
  rw [queueAndSend_withOoo hw]
  split_ifs
  · cases c.state <;> rfl
  · rfl

theorem armProbe_withOoo (c : TcpConnection) (ooo : AssocMap UInt32 Bytes) (now : Instant) :
    { c with oooBuffer := ooo }.armProbe now = { c.armProbe now with oooBuffer := ooo } := by
  unfold armProbe
  dsimp only
  split_ifs <;> rfl

theorem SameAs.flushSend (h : c'.SameAs c) (now : Instant) :
    (c'.flushSend now).1.SameAs (c.flushSend now).1 ∧
      (c'.flushSend now).2 = (c.flushSend now).2 := by
  have hooo : (c.flushSend now).1.oooBuffer = c.oooBuffer :=
    (inbound_eq_iff.mp (flushSend_inbound now c)).2.2.1
  suffices heq : c'.flushSend now =
      ({ (c.flushSend now).1 with oooBuffer := c'.oooBuffer }, (c.flushSend now).2) by
    rw [heq]
    refine ⟨⟨?_, rfl⟩, rfl⟩
    rw [hooo]
    exact h.ooo
  have hw := h.weight
  rw [h.rest]
  generalize c'.oooBuffer = ooo at hw
  have harm : (c.armProbe now).oooBuffer = c.oooBuffer :=
    (congrArg oooBuffer (armProbe_withOoo c c.oooBuffer now) :)
  have hloop := flushLoop_withOoo now (c.armProbe now).sendPending.length
    (hw.trans (congrArg (AssocMap.weight List.length) harm.symm))
  have hkeep : (flushLoop now (c.armProbe now).sendPending.length (c.armProbe now)).1.oooBuffer =
      (c.armProbe now).oooBuffer :=
    congrArg (fun p ↦ p.1.oooBuffer) (flushLoop_withOoo now _ rfl)
  have hfin := sendDeferredFin_withOoo now
    (hw.trans (congrArg (AssocMap.weight List.length) (hkeep.trans harm).symm))
  unfold TcpConnection.flushSend
  dsimp only
  rw [armProbe_withOoo]
  split_ifs
  · dsimp only
    rw [hloop]
    dsimp only
    rw [hfin]
  · rfl

end TcpConnection

namespace TcpTable

variable {t : TcpTable} {key : ConnectionKey} {c c' : TcpConnection}

/-- The same table, with the connections and their `ooo_buffer`s compared as maps. -/
structure SameAs (t' t : TcpTable) : Prop where
  connections : ∀ k, Option.Rel TcpConnection.SameAs (t'.lookup k) (t.lookup k)
  rest : t' = { t with connections := t'.connections }

theorem rel_refl (o : Option TcpConnection) : Option.Rel TcpConnection.SameAs o o := by
  cases o with
  | none => exact .none
  | some c => exact .some (.refl c)

theorem SameAs.refl (t : TcpTable) : t.SameAs t := ⟨fun k ↦ rel_refl (t.lookup k), rfl⟩

theorem sameAs_setConnection_iff (hst' : c'.state ≠ .closed) (hst : c.state ≠ .closed) :
    (t.setConnection key c').cleanupClosedConnections.SameAs
        (t.setConnection key c).cleanupClosedConnections ↔ c'.SameAs c := by
  have hkept {c₁ : TcpConnection} (h : c₁.state ≠ .closed) :
      (t.setConnection key c₁).cleanupClosedConnections.lookup key = some c₁ := by
    rw [lookup_cleanup_setConnection, if_pos rfl]
    exact Option.filter_eq_some_iff.mpr ⟨rfl, by simpa using h⟩
  constructor
  · intro h
    have hrel := h.connections key
    rw [hkept hst', hkept hst] at hrel
    cases hrel with
    | some hsame => exact hsame
  · intro h
    refine ⟨fun k ↦ ?_, rfl⟩
    by_cases hk : k = key
    · rw [hk, hkept hst', hkept hst]
      exact .some h
    · rw [lookup_cleanup_setConnection, lookup_cleanup_setConnection, if_neg hk, if_neg hk]
      exact rel_refl _

end TcpTable

end MiniTcp
