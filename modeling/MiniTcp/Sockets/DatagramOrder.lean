import MiniTcp.Confinement
import MiniTcp.Lib.Fifo
import MiniTcp.Sockets.Device

/-!
# The order of datagrams

A binding of the UDP table hands out the datagrams that found room in its queue, in the order of
their arrival and each of them once, whatever happens at the other addresses in between.  The
queue is emptied from outside in two ways only: the address is unbound, or it is bound once more
with `SO_REUSEADDR` while it is bound.
-/

namespace MiniTcp

namespace UdpTable

variable {t : UdpTable} {key key' : UInt32 × UInt16} {b : UdpBinding}

/-- The datagrams that wait at an address. -/
def queued (key : UInt32 × UInt16) (t : UdpTable) : List UdpDatagram :=
  match t.binding key with
  | none => []
  | some b => b.recvQueue

/-- A datagram of `len` bytes would be queued. -/
def roomFor (t : UdpTable) (key : UInt32 × UInt16) (len : ℕ) : Bool :=
  (t.binding key).any fun b ↦ b.queuedBytes + len ≤ b.recvQueueCapBytes

/-- What a call of `recv` at `key` returns. -/
def returned (key : UInt32 × UInt16) (t : UdpTable) : UdpEvent → List UdpDatagram
  | .recv key' => if key' = key then (t.recv key).2.toList else []
  | _ => []

/-- The datagram for `key` that arrives and finds room. -/
def arrived (key : UInt32 × UInt16) (t : UdpTable) : UdpEvent → List UdpDatagram
  | .datagram ipHdr payload =>
      if udpHeaderLen ≤ payload.length ∧ (ipHdr.dstAddr, dstPortOf payload) = key ∧
          t.roomFor key (payload.length - udpHeaderLen) then
        [⟨ipHdr.srcAddr, srcPortOf payload, payload.drop udpHeaderLen⟩]
      else []
  | _ => []

/-- The call does not throw away the queue of `key`. -/
def SparesQueue (key : UInt32 × UInt16) (t : UdpTable) : UdpEvent → Prop
  | .bind addr port reuseAddr _ => (addr, port) = key → t.isBound key = true → reuseAddr = false
  | .unbind key' => key' ≠ key
  | _ => True

theorem queued_of_binding (h : t.binding key = some b) : t.queued key = b.recvQueue := by
  rw [queued, h]

theorem queued_insert (t : UdpTable) (key key' : UInt32 × UInt16) (b : UdpBinding) :
    queued key ⟨AList.insert key' b t.binds⟩ =
      if key = key' then b.recvQueue else t.queued key := by
  rw [queued, binding_insert]
  split_ifs <;> rfl

theorem queued_deliver (t : UdpTable) (key key' : UInt32 × UInt16) (srcAddr : UInt32)
    (srcPort : UInt16) (data : Bytes) :
    queued key (t.deliver key' srcAddr srcPort data) =
      t.queued key ++
        if key' = key ∧ t.roomFor key data.length then [⟨srcAddr, srcPort, data⟩] else [] := by
  unfold deliver
  cases hb : t.binding key' with
  | none =>
      rw [if_neg, List.append_nil]
      rintro ⟨rfl, hroom⟩
      simp [roomFor, hb] at hroom
  | some b =>
      dsimp only
      by_cases hk : key' = key
      · subst hk
        have hroom : t.roomFor key' data.length =
            decide (b.queuedBytes + data.length ≤ b.recvQueueCapBytes) := by
          simp [roomFor, hb]
        rw [hroom]
        split_ifs with hfull hfits hfits
        · exact absurd (of_decide_eq_true hfits.2) (not_le.mpr hfull)
        · exact (List.append_nil _).symm
        · rw [queued_insert, if_pos rfl, queued_of_binding hb]
        · exact absurd ⟨rfl, decide_eq_true (not_lt.mp hfull)⟩ hfits
      · have hother : ¬ (key' = key ∧ t.roomFor key data.length = true) := fun h ↦ hk h.1
        rw [if_neg hother, List.append_nil]
        split_ifs
        · rfl
        · rw [queued_insert, if_neg (Ne.symm hk)]

theorem roomFor_of_not_bound (h : ¬ t.isBound key = true) (len : ℕ) :
    t.roomFor key len = false := by
  rw [isBound, Bool.not_eq_true, Option.isSome_eq_false_iff, Option.isNone_iff_eq_none] at h
  rw [roomFor, h]
  rfl

theorem queued_handleDatagram (t : UdpTable) (key : UInt32 × UInt16) (ipHdr : IpHeader)
    (payload : Bytes) :
    queued key (t.handleDatagram ipHdr payload).1 =
      t.queued key ++ t.arrived key (.datagram ipHdr payload) := by
  have hlen : (payload.drop udpHeaderLen).length = payload.length - udpHeaderLen :=
    List.length_drop
  rw [arrived]
  by_cases hshort : payload.length < udpHeaderLen
  · rw [handleDatagram, if_pos hshort, if_neg fun h ↦ not_le.mpr hshort h.1, List.append_nil]
  · by_cases hbound : t.isBound (ipHdr.dstAddr, dstPortOf payload) = true
    · have hdeliver : (t.handleDatagram ipHdr payload).1 =
          t.deliver (ipHdr.dstAddr, dstPortOf payload) ipHdr.srcAddr (srcPortOf payload)
            (payload.drop udpHeaderLen) := by
        rw [handleDatagram, if_neg hshort]
        exact congrArg Prod.fst (if_pos hbound)
      rw [hdeliver, queued_deliver, hlen]
      simp only [not_lt.mp hshort, true_and]
    · have hsame : (t.handleDatagram ipHdr payload).1 = t := by
        rw [handleDatagram, if_neg hshort]
        exact congrArg Prod.fst (if_neg hbound)
      rw [hsame, if_neg, List.append_nil]
      rintro ⟨-, rfl, hroom⟩
      rw [roomFor_of_not_bound hbound] at hroom
      cases hroom

theorem queued_recv (t : UdpTable) (key key' : UInt32 × UInt16) :
    t.returned key (.recv key') ++ queued key (t.recv key').1 = t.queued key := by
  rw [returned]
  by_cases hk : key' = key
  · subst hk
    rw [if_pos rfl]
    unfold recv
    split
    · next dg rest cap hb =>
        rw [queued_insert, if_pos rfl, queued_of_binding hb]
        rfl
    · rfl
  · rw [if_neg hk, List.nil_append]
    unfold recv
    split
    · rw [queued_insert, if_neg (Ne.symm hk)]
    · rfl

theorem queued_bind (t : UdpTable) (key : UInt32 × UInt16) (addr : UInt32) (port : UInt16)
    (reuseAddr : Bool) (cap : ℕ)
    (h : (addr, port) = key → t.isBound key = true → reuseAddr = false) :
    queued key (t.bind addr port reuseAddr cap).1 = t.queued key := by
  unfold bind
  split_ifs with hfails
  · rfl
  · rw [queued_insert]
    split_ifs with hk
    · -- the address was not bound, so nothing waits there
      cases hb : t.binding key with
      | none => rw [queued, hb]
      | some b =>
          have hbound : t.isBound key = true := by rw [isBound, hb]; rfl
          have hreuse := h hk.symm hbound
          rw [hk] at hbound
          simp [hbound, hreuse] at hfails
    · rfl

theorem queued_setRecvCap (t : UdpTable) (key key' : UInt32 × UInt16) (cap : ℕ) :
    queued key (t.setRecvCap key' cap) = t.queued key := by
  unfold setRecvCap
  split
  · rfl
  · next b hb =>
      rw [queued_insert]
      split_ifs with hk
      · rw [hk, queued_of_binding hb]
      · rfl

/-- Every call that does not throw away the queue balances it. -/
theorem balance_step (key : UInt32 × UInt16) (t : UdpTable) (e : UdpEvent)
    (h : t.SparesQueue key e) :
    t.returned key e ++ (t.step e).queued key = t.queued key ++ t.arrived key e := by
  cases e with
  | datagram ipHdr payload => exact t.queued_handleDatagram key ipHdr payload
  | recv key' => exact (t.queued_recv key key').trans (List.append_nil _).symm
  | bind addr port reuseAddr cap =>
      exact (t.queued_bind key addr port reuseAddr cap h).trans (List.append_nil _).symm
  | unbind key' =>
      have hlookup : (t.unbind key').binding key = if key = key' then none else t.binding key :=
        AssocMap.lookup_erase_eq ..
      rw [if_neg (Ne.symm h)] at hlookup
      change queued key (t.unbind key') = t.queued key ++ []
      rw [queued, hlookup, List.append_nil]
      rfl
  | setRecvCap key' cap => exact (t.queued_setRecvCap key key' cap).trans (List.append_nil _).symm

/-- In every run that does not throw away the queue of an address, what `recv` has returned there
followed by what still waits is what waited at the start followed by the datagrams that found
room, in the order of their arrival. -/
theorem datagrams_in_order (key : UInt32 × UInt16) (t : UdpTable) (es : List UdpEvent)
    (h : Run.Along (SparesQueue key) step t es) :
    Fifo.collect (returned key) step t es ++ (t.run es).queued key =
      t.queued key ++ Fifo.collect (arrived key) step t es := by
  apply Fifo.balance _ h
  intro t e he
  exact balance_step key t e he

/-- Port 7 of host 1 is bound for the first time, with `SO_REUSEADDR`; two datagrams for it and
one for another port arrive, and the first is read. -/
theorem datagrams_in_order_two :
    ∃ (t : UdpTable) (es : List UdpEvent),
      Fifo.collect (returned (1, 7)) step t es = [⟨2, 9, [1]⟩] ∧
      (t.run es).queued (1, 7) = [⟨2, 9, [2]⟩] ∧
      Fifo.collect (returned (1, 7)) step t es ++ (t.run es).queued (1, 7) =
        t.queued (1, 7) ++ Fifo.collect (arrived (1, 7)) step t es := by
  let other : UdpEvent :=
    .datagram ⟨4, 5, 0, 0, 0, 0, 0, 64, 17, 0, 2, 1⟩ (udpBytes 9 8 0 0 [5])
  refine ⟨new, [.bind 1 7 true 100, datagramTo [1], other, datagramTo [2], .recv (1, 7)],
    by decide +kernel, by decide +kernel, datagrams_in_order (1, 7) _ _ ⟨?_, trivial, trivial,
      trivial, trivial, trivial⟩⟩
  intro _ hbound
  cases hbound

end UdpTable

end MiniTcp
