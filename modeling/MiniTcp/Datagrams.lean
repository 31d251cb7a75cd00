import Mathlib.Algebra.GroupWithZero.Nat
import Mathlib.Algebra.BigOperators.Group.List.Basic
import MiniTcp.Lib.Run
import MiniTcp.Udp

/-!
# Datagrams: the checksum that is sent and the queue that is kept

The checksum field of a datagram holds what `checksum16` returns, also when that is `0`,
the value that stands for "no checksum".  The receive queue of a binding counts the bytes
of its datagrams and not the datagrams.
-/

open BigEndian OnesComplement

namespace MiniTcp

/-! ## The checksum field -/

/-- The sum of the words the checksum of a datagram is computed from. -/
def datagramSum (srcAddr : UInt32) (srcPort : UInt16) (dstAddr : UInt32) (dstPort : UInt16)
    (data : Bytes) : ℕ :=
  let udpLen := UInt16.ofNat (udpHeaderLen + data.length)
  wordSum (buildPseudoHeader srcAddr dstAddr udpLen ++ udpBytes srcPort dstPort udpLen 0 data)

/-- The protocol number is part of the sum. -/
theorem datagramSum_pos (srcAddr : UInt32) (srcPort : UInt16) (dstAddr : UInt32)
    (dstPort : UInt16) (data : Bytes) : datagramSum srcAddr srcPort dstAddr dstPort data ≠ 0 := by
  have hsplit (udpLen : UInt16) : buildPseudoHeader srcAddr dstAddr udpLen =
      (u32ToBe srcAddr ++ u32ToBe dstAddr) ++ ([0, 17] ++ u16ToBe udpLen) := by
    simp [buildPseudoHeader]
  have hprotocol (r : Bytes) : wordSum ([0, 17] ++ r) = 17 + wordSum r := by
    simp [wordSum]
  have heven : (u32ToBe srcAddr ++ u32ToBe dstAddr).length % 2 = 0 := by
    rw [List.length_append, length_u32ToBe, length_u32ToBe]
  rw [datagramSum, hsplit, List.append_assoc, wordSum_append heven, List.append_assoc, hprotocol]
  omega

theorem udpChecksum_eq_zero_iff (srcAddr : UInt32) (srcPort : UInt16) (dstAddr : UInt32)
    (dstPort : UInt16) {data : Bytes} (hlen : data.length ≤ 65507) :
    udpChecksum srcAddr srcPort dstAddr dstPort (UInt16.ofNat (8 + data.length)) data = 0 ↔
      65535 ∣ datagramSum srcAddr srcPort dstAddr dstPort data := by
  have hpos := datagramSum_pos srcAddr srcPort dstAddr dstPort data
  have hpseudo (udpLen : UInt16) : (buildPseudoHeader srcAddr dstAddr udpLen).length = 12 := rfl
  rw [udpChecksum, checksum16_eq_zero_iff, Nat.dvd_iff_mod_eq_zero]
  · exact and_iff_right hpos
  · rw [List.length_append, hpseudo, length_udpBytes, udpHeaderLen]
    omega

/-- The field holds the complement of the sum, and is zero whenever that is. -/
theorem udp_checksum_nonzero_iff (srcAddr : UInt32) (srcPort : UInt16) (dstAddr : UInt32)
    (dstPort : UInt16) {data : Bytes} (hlen : data.length ≤ 65507) :
    ∃ packet, sendDatagram srcAddr srcPort dstAddr dstPort data = some packet ∧
      (u16FromBe (packet.getD 26 0) (packet.getD 27 0) ≠ 0 ↔
        ¬ 65535 ∣ datagramSum srcAddr srcPort dstAddr dstPort data) := by
  refine ⟨_, sendDatagram_of_length srcAddr srcPort dstAddr dstPort hlen, ?_⟩
  rw [← udpChecksum_eq_zero_iff _ _ _ _ hlen]
  exact not_congr (Eq.congr_left (u16FromBe_toBe _))

theorem udp_checksum_nonzero_ping :
    ∃ packet, sendDatagram 1 7 2 9 [1, 2] = some packet ∧
      u16FromBe (packet.getD 26 0) (packet.getD 27 0) ≠ 0 := by
  have hlen : List.length ([1, 2] : Bytes) ≤ 65507 := by decide
  obtain ⟨packet, hsend, hfield⟩ := udp_checksum_nonzero_iff 1 7 2 9 hlen
  exact ⟨packet, hsend, hfield.mpr (by decide +kernel)⟩

/-- Two bytes that complete the sum to the all-ones word. -/
theorem exists_udp_checksum_zero :
    ∃ packet, sendDatagram 1 7 2 9 [0xFF, 0xC7] = some packet ∧
      u16FromBe (packet.getD 26 0) (packet.getD 27 0) = 0 :=
  ⟨_, rfl, by decide +kernel⟩

/-! ## The receive queue -/

def UdpBinding.queuedBytes (b : UdpBinding) : ℕ := (b.recvQueue.map fun dg ↦ dg.data.length).sum

inductive UdpEvent where
  | datagram (ipHdr : IpHeader) (payload : Bytes)
  | recv (key : UInt32 × UInt16)
  | bind (addr : UInt32) (port : UInt16) (reuseAddr : Bool) (recvCapBytes : ℕ)
  | unbind (key : UInt32 × UInt16)
  | setRecvCap (key : UInt32 × UInt16) (capBytes : ℕ)

namespace UdpTable

def step (t : UdpTable) : UdpEvent → UdpTable
  | .datagram ipHdr payload => (t.handleDatagram ipHdr payload).1
  | .recv key => (t.recv key).1
  | .bind addr port reuseAddr recvCapBytes => (t.bind addr port reuseAddr recvCapBytes).1
  | .unbind key => t.unbind key
  | .setRecvCap key capBytes => t.setRecvCap key capBytes

/-- The binding has this cap after the event, if there is one. -/
def StaysAt (key : UInt32 × UInt16) (cap : ℕ) (t : UdpTable) (e : UdpEvent) : Prop :=
  ∀ b, (t.step e).binding key = some b → b.recvQueueCapBytes = cap

/-- A datagram for the binding has data. -/
def Filled (key : UInt32 × UInt16) : UdpEvent → Prop
  | .datagram ipHdr payload =>
      (ipHdr.dstAddr, u16FromBe (payload.getD 2 0) (payload.getD 3 0)) = key →
        payload.length ≠ udpHeaderLen
  | _ => True

variable {t : UdpTable} {key key' : UInt32 × UInt16} {b b' : UdpBinding} {cap : ℕ}

theorem binding_insert (t : UdpTable) (key key' : UInt32 × UInt16) (b : UdpBinding) :
    binding ⟨AList.insert key b t.binds⟩ key' = if key' = key then some b else t.binding key' :=
  AssocMap.lookup_insert_eq ..

/-- The three things an event can do to a queue: start it anew, take from its front or
leave it, add a datagram for which there is room. -/
inductive QueueStep (key : UInt32 × UInt16) (e : UdpEvent) (old : Option UdpBinding) :
    UdpBinding → Prop
  | fresh {b' : UdpBinding} (h : b'.recvQueue = []) : QueueStep key e old b'
  | keep {b b' : UdpBinding} (hold : old = some b) (h : b'.recvQueue <:+ b.recvQueue) :
      QueueStep key e old b'
  | add {b : UdpBinding} (hold : old = some b) (dg : UdpDatagram)
      (hroom : b.queuedBytes + dg.data.length ≤ b.recvQueueCapBytes)
      (hdata : Filled key e → dg.data ≠ []) :
      QueueStep key e old { b with recvQueue := b.recvQueue ++ [dg] }

theorem queueStep_insert {e : UdpEvent} (hstep : key = key' → QueueStep key e (t.binding key) b)
    (h : binding ⟨AList.insert key' b t.binds⟩ key = some b') :
    QueueStep key e (t.binding key) b' := by
  rw [binding_insert] at h
  split_ifs at h with hkey
  · obtain rfl := Option.some.inj h
    exact hstep hkey
  · exact .keep h List.suffix_rfl

theorem queueStep_deliver {ipHdr : IpHeader} {payload : Bytes} {srcPort : UInt16}
    (hlen : udpHeaderLen ≤ payload.length)
    (h : (t.deliver (ipHdr.dstAddr, u16FromBe (payload.getD 2 0) (payload.getD 3 0)) ipHdr.srcAddr
      srcPort (payload.drop udpHeaderLen)).binding key = some b') :
    QueueStep key (.datagram ipHdr payload) (t.binding key) b' := by
  unfold deliver at h
  split at h
  · exact .keep h List.suffix_rfl
  · next b hb =>
      dsimp only at h
      split_ifs at h with hroom
      · exact .keep h List.suffix_rfl
      · refine queueStep_insert (fun hkey ↦ ?_) h
        rw [hkey]
        refine .add hb _ (not_lt.mp hroom) fun hfilled hnil ↦ hfilled rfl ?_
        exact le_antisymm (List.drop_eq_nil_iff.mp hnil) hlen

theorem queueStep {e : UdpEvent} (h : (t.step e).binding key = some b') :
    QueueStep key e (t.binding key) b' := by
  cases e with
  | datagram ipHdr payload =>
      simp only [step, handleDatagram] at h
      split_ifs at h with hshort
      · exact .keep h List.suffix_rfl
      · exact queueStep_deliver (not_lt.mp hshort) h
      · exact .keep h List.suffix_rfl
  | recv key' =>
      simp only [step, recv] at h
      split at h
      · next dg rest cap hb =>
          refine queueStep_insert (fun hkey ↦ ?_) h
          rw [hkey]
          exact .keep hb (List.suffix_cons dg rest)
      · exact .keep h List.suffix_rfl
  | bind addr port reuseAddr recvCapBytes =>
      simp only [step, bind] at h
      split_ifs at h
      · exact .keep h List.suffix_rfl
      · exact queueStep_insert (fun _ ↦ .fresh rfl) h
  | unbind key' =>
      have hlookup : (t.unbind key').binding key = if key = key' then none else t.binding key :=
        AssocMap.lookup_erase_eq ..
      simp only [step, hlookup] at h
      split_ifs at h
      exact .keep h List.suffix_rfl
  | setRecvCap key' capBytes =>
      simp only [step, setRecvCap] at h
      split at h
      · exact .keep h List.suffix_rfl
      · next b hb =>
          refine queueStep_insert (fun hkey ↦ ?_) h
          rw [hkey]
          exact .keep hb List.suffix_rfl

/-! ## What the cap bounds -/

theorem queuedBytes_le_of_suffix (h : b'.recvQueue <:+ b.recvQueue) :
    b'.queuedBytes ≤ b.queuedBytes := by
  obtain ⟨front, hfront⟩ := h
  rw [UdpBinding.queuedBytes, UdpBinding.queuedBytes, ← hfront, List.map_append, List.sum_append]
  exact Nat.le_add_left _ _

/-- A binding whose cap is `cap` and whose queue keeps to it. -/
def WithinCap (cap : ℕ) (b : UdpBinding) : Prop :=
  b.recvQueueCapBytes = cap ∧ b.queuedBytes ≤ cap

theorem WithinCap.step {e : UdpEvent} (h : ∀ b, t.binding key = some b → WithinCap cap b)
    (hstays : StaysAt key cap t e) (hb' : (t.step e).binding key = some b') :
    WithinCap cap b' := by
  refine ⟨hstays b' hb', ?_⟩
  cases queueStep hb' with
  | fresh hempty => simp [UdpBinding.queuedBytes, hempty]
  | keep hold hsuffix => exact (queuedBytes_le_of_suffix hsuffix).trans (h _ hold).2
  | add hold dg hroom =>
      rw [(h _ hold).1] at hroom
      simpa [UdpBinding.queuedBytes] using hroom

theorem withinCap (h : Run.Reaches (· = new) (StaysAt key cap) step t) :
    ∀ b, t.binding key = some b → WithinCap cap b := by
  refine Run.Reaches.invariant (P := fun t ↦ ∀ b, t.binding key = some b → WithinCap cap b)
    ?_ ?_ h
  · rintro s rfl b hb
    cases hb
  · intro s e _ hstays ih b hb
    exact WithinCap.step ih hstays hb

/-- No datagram in the queue is empty. -/
def AllFilled (b : UdpBinding) : Prop := ∀ dg ∈ b.recvQueue, dg.data ≠ []

theorem AllFilled.step {e : UdpEvent} (h : ∀ b, t.binding key = some b → AllFilled b)
    (hfilled : Filled key e) (hb' : (t.step e).binding key = some b') : AllFilled b' := by
  intro dg hdg
  cases queueStep hb' with
  | fresh hempty =>
      rw [hempty] at hdg
      cases hdg
  | keep hold hsuffix => exact h _ hold dg (hsuffix.subset hdg)
  | add hold dg' _ hdata =>
      rcases List.mem_append.mp hdg with hdg | hdg
      · exact h _ hold dg hdg
      · rw [List.mem_singleton.mp hdg]
        exact hdata hfilled

theorem allFilled (h : Run.Reaches (· = new) (fun _ e ↦ Filled key e) step t) :
    ∀ b, t.binding key = some b → AllFilled b := by
  refine Run.Reaches.invariant (P := fun t ↦ ∀ b, t.binding key = some b → AllFilled b) ?_ ?_ h
  · rintro s rfl b hb
    cases hb
  · intro s e _ hfilled ih b hb
    exact AllFilled.step ih hfilled hb

theorem AllFilled.length_le (h : AllFilled b) : b.recvQueue.length ≤ b.queuedBytes := by
  have hone : ∀ n ∈ b.recvQueue.map fun dg ↦ dg.data.length, 1 ≤ n := by
    intro n hn
    obtain ⟨dg, hdg, rfl⟩ := List.mem_map.mp hn
    exact List.length_pos_iff.mpr (h dg hdg)
  have hsum := List.length_le_sum_of_one_le _ hone
  rwa [List.length_map] at hsum

/-- The bytes in the queue never exceed the cap.  Neither do the datagrams, as long as
none of them is empty. -/
theorem udp_queue_bounded {t : UdpTable} {key : UInt32 × UInt16} {b : UdpBinding} {cap : ℕ}
    (ht : Run.Reaches (· = new) (StaysAt key cap) step t) (hb : t.binding key = some b) :
    b.queuedBytes ≤ cap ∧
      (Run.Reaches (· = new) (fun t e ↦ StaysAt key cap t e ∧ Filled key e) step t →
        b.recvQueue.length ≤ cap) := by
  have hcap := (withinCap ht b hb).2
  refine ⟨hcap, fun hfilled ↦ ?_⟩
  exact (allFilled (hfilled.mono fun _ _ he ↦ he.2) b hb).length_le.trans hcap

/-! Datagrams from port 9 of host 2 to a binding at port 7 of host 1. -/

def datagramTo (data : Bytes) : UdpEvent :=
  .datagram ⟨4, 5, 0, 0, 0, 0, 0, 64, 17, 0, 2, 1⟩ (udpBytes 9 7 0 0 data)

/-- `n` datagrams with the same data after a `bind`. -/
def flooded (cap : ℕ) (data : Bytes) : ℕ → UdpTable
  | 0 => new.step (.bind 1 7 false cap)
  | n + 1 => (flooded cap data n).step (datagramTo data)

theorem binding_flooded {cap n : ℕ} {data : Bytes} (hroom : n * data.length ≤ cap) :
    (flooded cap data n).binding (1, 7) = some ⟨List.replicate n ⟨2, 9, data⟩, cap⟩ := by
  induction n with
  | zero => rfl
  | succ n ih =>
      have hlt : ¬ cap < n * data.length + data.length := by rwa [not_lt, ← Nat.succ_mul]
      have hb := ih (by omega)
      have hlen : ¬ (udpBytes 9 7 0 0 data).length < udpHeaderLen := by simp
      have hdst : u16FromBe ((udpBytes 9 7 0 0 data).getD 2 0)
          ((udpBytes 9 7 0 0 data).getD 3 0) = 7 := u16FromBe_toBe 7
      have hsrc : u16FromBe ((udpBytes 9 7 0 0 data).getD 0 0)
          ((udpBytes 9 7 0 0 data).getD 1 0) = 9 := u16FromBe_toBe 9
      simp only [flooded, step, datagramTo, handleDatagram, if_neg hlen, hdst, hsrc, isBound, hb,
        drop_udpBytes, deliver, List.map_replicate, List.sum_replicate_nat, gt_iff_lt,
        if_neg hlt, Option.isSome_some, if_true, binding_insert, List.replicate_succ']

theorem reaches_flooded {ok : UdpTable → UdpEvent → Prop} {cap n : ℕ} {data : Bytes}
    (hbind : ok new (.bind 1 7 false cap))
    (hdata : ∀ m < n, ok (flooded cap data m) (datagramTo data)) :
    Run.Reaches (· = new) ok step (flooded cap data n) := by
  induction n with
  | zero => exact .tail _ (.start rfl) hbind
  | succ n ih =>
      refine .tail _ (ih fun m hm ↦ hdata m (Nat.lt_succ_of_lt hm)) (hdata n (Nat.lt_succ_self n))

theorem staysAt_flooded {cap n : ℕ} {data : Bytes} (hroom : n * data.length ≤ cap) :
    ∀ m < n, StaysAt (1, 7) cap (flooded cap data m) (datagramTo data) := by
  intro m hm b hb
  have hle : (m + 1) * data.length ≤ n * data.length := Nat.mul_le_mul_right _ hm
  have hnext := binding_flooded (n := m + 1) (hle.trans hroom)
  rw [flooded, hb] at hnext
  rw [Option.some.inj hnext]

theorem staysAt_bind (cap : ℕ) : StaysAt (1, 7) cap new (.bind 1 7 false cap) := by
  rintro b ⟨⟩
  rfl

theorem udp_queue_bounded_full :
    ∃ b, (flooded 3 [5] 3).binding (1, 7) = some b ∧ b.queuedBytes ≤ 3 ∧
      b.recvQueue.length ≤ 3 := by
  have hroom : 3 * List.length ([5] : Bytes) ≤ 3 := le_rfl
  have hb := binding_flooded hroom
  have hstays := staysAt_flooded hroom
  obtain ⟨hbytes, hcount⟩ := udp_queue_bounded (reaches_flooded (staysAt_bind 3) hstays) hb
  refine ⟨_, hb, hbytes, hcount (reaches_flooded ⟨staysAt_bind 3, trivial⟩ fun m hm ↦ ?_)⟩
  exact ⟨hstays m hm, fun _ ↦ by decide⟩

/-- Empty datagrams take no room: the queue of a binding with cap 3 grows beyond any bound. -/
theorem exists_udp_queue_unbounded :
    ¬ ∃ bound, ∀ t b, Run.Reaches (· = new) (StaysAt (1, 7) 3) step t →
      t.binding (1, 7) = some b → b.recvQueue.length ≤ bound := by
  rintro ⟨bound, hbound⟩
  have hroom : (bound + 1) * List.length ([] : Bytes) ≤ 3 := Nat.zero_le 3
  have hlen := hbound (flooded 3 [] (bound + 1)) _
    (reaches_flooded (staysAt_bind 3) (staysAt_flooded hroom)) (binding_flooded hroom)
  rw [List.length_replicate] at hlen
  exact Nat.not_succ_le_self bound hlen

end UdpTable

end MiniTcp
