import Mathlib.Data.List.GetD
import MiniTcp.Checked.Wire
import MiniTcp.StackRun

/-!
# Datagrams of any length

`send_datagram` cuts the length of a datagram to sixteen bits, makes its buffers for
what is left, copies the data in, and adds the length of the IP header in sixteen bits.
The copy fails from 65528 bytes on, the addition from 65508 bytes on.
-/

open BigEndian Panic

namespace MiniTcp.Checked

/-- The packet carries the data under length fields that are its own lengths. -/
structure Carries (packet data : Bytes) : Prop where
  total : ∃ hdr, MiniTcp.parseIpHeader packet = some hdr ∧
    hdr.totalLength.toNat = packet.length
  length : (u16FromBe (packet.getD 24 0) (packet.getD 25 0)).toNat = udpHeaderLen + data.length
  data : packet.drop (ipHeaderLen + udpHeaderLen) = data

theorem length_of_buildUdpPart {srcPort dstPort udpLen : UInt16} {data out part : Bytes}
    (h : buildUdpPart srcPort dstPort udpLen data out = .ok part) :
    data = [] ∨ udpHeaderLen ≤ out.length ∧ data.length = out.length - udpHeaderLen := by
  obtain ⟨out₁, hport, h⟩ := of_bind_ok h
  obtain ⟨out₂, hdst, h⟩ := of_bind_ok h
  obtain ⟨out₃, hlen, h⟩ := of_bind_ok h
  obtain ⟨out₄, hzero, h⟩ := of_bind_ok h
  obtain ⟨out₅, hzero', h⟩ := of_bind_ok h
  have hout : out₅.length = out.length := by
    rw [length_of_store hzero', length_of_store hzero, (of_copyFromSlice hlen).2.2.2,
      (of_copyFromSlice hdst).2.2.2, (of_copyFromSlice hport).2.2.2]
  unfold copyData at h
  split_ifs at h with hempty
  · exact .inl (List.isEmpty_iff.mp hempty)
  · obtain ⟨hle, -, hdata, -⟩ := of_copyFromSlice h
    rw [hout] at hle hdata
    exact .inr ⟨hle, hdata⟩

/-- A datagram that is sent without a panic is short enough for all its length fields. -/
theorem length_of_sendDatagram {srcAddr dstAddr : UInt32} {srcPort dstPort : UInt16}
    {data packet : Bytes} (h : sendDatagram srcAddr srcPort dstAddr dstPort data = .ok packet) :
    data.length ≤ 65507 := by
  obtain ⟨len, hlen, h⟩ := of_bind_ok h
  obtain ⟨size, hsize, h⟩ := of_bind_ok h
  obtain ⟨pseudo, -, h⟩ := of_bind_ok h
  obtain ⟨pseudo', -, h⟩ := of_bind_ok h
  obtain ⟨udpPart, hslice, h⟩ := of_bind_ok h
  obtain ⟨udpPart', hpart, h⟩ := of_bind_ok h
  obtain ⟨csum, -, h⟩ := of_bind_ok h
  obtain ⟨scratch, -, h⟩ := of_bind_ok h
  obtain ⟨totalLength, htotal, h⟩ := of_bind_ok h
  have hudp : (UInt16.ofNat len).toNat = (8 + data.length) % 65536 := by
    rw [of_add hlen, UInt16.toNat_ofNat']
    rfl
  have hsum : 20 + (UInt16.ofNat len).toNat < 2 ^ 16 := of_addU16 htotal
  have hlength : udpPart.length = (UInt16.ofNat len).toNat := by
    rw [of_slice hslice, length_zeros, of_add hsize]
    omega
  rcases length_of_buildUdpPart hpart with rfl | ⟨hle, hdata⟩
  · exact Nat.zero_le _
  · have hheader : udpHeaderLen = 8 := rfl
    omega

theorem sendDatagram_error {data : Bytes} (h : 65507 < data.length) (srcAddr : UInt32)
    (srcPort : UInt16) (dstAddr : UInt32) (dstPort : UInt16) :
    ∃ e, sendDatagram srcAddr srcPort dstAddr dstPort data = .error e := by
  cases hsend : sendDatagram srcAddr srcPort dstAddr dstPort data with
  | error e => exact ⟨e, rfl⟩
  | ok packet => exact absurd (length_of_sendDatagram hsend) (not_le.mpr h)

theorem carries_of_sendDatagram {srcAddr dstAddr : UInt32} {srcPort dstPort : UInt16}
    {data packet : Bytes} (hlen : data.length ≤ 65507)
    (h : MiniTcp.sendDatagram srcAddr srcPort dstAddr dstPort data = some packet) :
    Carries packet data := by
  rw [sendDatagram_of_length _ _ _ _ hlen] at h
  obtain rfl := Option.some.inj h
  have hudp : (UInt16.ofNat (8 + data.length)).toNat = 8 + data.length := by
    rw [UInt16.toNat_ofNat']
    omega
  refine ⟨⟨_, parseIpHeader_append (plain_datagramHeader ..) _ _, ?_⟩, ?_, rfl⟩
  · have htotal : (UInt16.ofNat ipHeaderLen + UInt16.ofNat (8 + data.length)).toNat =
        20 + (8 + data.length) := by
      rw [UInt16.toNat_add, hudp]
      exact Nat.mod_eq_of_lt (by omega : 20 + (8 + data.length) < 2 ^ 16)
    rw [List.length_append, length_buildIpHeader, length_udpBytes]
    exact htotal
  · rw [List.getD_append_right _ _ _ _ (by rw [length_buildIpHeader]; decide),
      List.getD_append_right _ _ _ _ (by rw [length_buildIpHeader]; decide),
      length_buildIpHeader]
    exact (congrArg UInt16.toNat (u16FromBe_toBe _)).trans hudp

theorem sendDatagram_ok_iff (srcAddr : UInt32) (srcPort : UInt16) (dstAddr : UInt32)
    (dstPort : UInt16) (data : Bytes) :
    (∃ packet, sendDatagram srcAddr srcPort dstAddr dstPort data = .ok packet ∧
      Carries packet data) ↔ data.length ≤ 65507 := by
  constructor
  · rintro ⟨packet, hsend, -⟩
    exact length_of_sendDatagram hsend
  · intro hlen
    obtain ⟨packet, hchecked, hpure⟩ := sendDatagram_ok srcAddr srcPort dstAddr dstPort hlen
    exact ⟨packet, hchecked, carries_of_sendDatagram hlen hpure⟩

def sendto (s : Stack) (id : SocketId) (data : Bytes) (dstAddr : UInt32) (dstPort : UInt16) :
    Except Panic (Stack × List Bytes × ℤ) :=
  match s.socketOf id with
  | none => .ok (s, [], -1)
  | some sock =>
      if sock.kind ≠ .udp then .ok (s, [], -1)
      else do
        let (s₁, key) := s.sendtoKey id sock
        let packet ← sendDatagram key.1 key.2 dstAddr dstPort data
        return (s₁, [packet], data.length)

/-- The call returns, and reports the data as sent exactly if one packet carries it. -/
def Reports (result : Except Panic (Stack × List Bytes × ℤ)) (data : Bytes) : Prop :=
  ∃ s out n, result = .ok (s, out, n) ∧
    (n = -1 ∧ out = [] ∨ n = data.length ∧ ∃ packet, out = [packet] ∧ Carries packet data)

theorem sendto_reports_iff (s : Stack) (id : SocketId) (data : Bytes) (dstAddr : UInt32)
    (dstPort : UInt16) :
    Reports (sendto s id data dstAddr dstPort) data ↔
      data.length ≤ 65507 ∨ ∀ sock, s.socketOf id = some sock → sock.kind ≠ .udp := by
  unfold sendto
  cases hsock : s.socketOf id with
  | none =>
      refine iff_of_true ⟨s, [], -1, rfl, .inl ⟨rfl, rfl⟩⟩ (.inr ?_)
      rintro sock ⟨⟩
  | some sock =>
      dsimp only
      by_cases hkind : sock.kind = .udp
      · rw [if_neg (not_not.mpr hkind)]
        constructor
        · rintro ⟨s', out, n, hresult, -⟩
          obtain ⟨packet, hsend, -⟩ := of_bind_ok hresult
          exact .inl (length_of_sendDatagram hsend)
        · intro h
          have hlen := h.resolve_right fun hnot ↦ hnot sock rfl hkind
          obtain ⟨packet, hsend, hcarries⟩ := (sendDatagram_ok_iff (s.sendtoKey id sock).2.1
            (s.sendtoKey id sock).2.2 dstAddr dstPort data).mpr hlen
          refine ⟨(s.sendtoKey id sock).1, [packet], data.length, ?_,
            .inr ⟨rfl, packet, rfl, hcarries⟩⟩
          rw [hsend]
          rfl
      · rw [if_pos hkind]
        refine iff_of_true ⟨s, [], -1, rfl, .inl ⟨rfl, rfl⟩⟩ (.inr ?_)
        rintro sock' ⟨⟩
        exact hkind

/-- Up to 65507 bytes a datagram goes out whole in one packet, under the lengths it has;
a longer one panics, also when it comes from `sendto` on a UDP socket. -/
theorem send_datagram_total_iff (srcAddr : UInt32) (srcPort : UInt16) (dstAddr : UInt32)
    (dstPort : UInt16) (data : Bytes) :
    ((∃ packet, sendDatagram srcAddr srcPort dstAddr dstPort data = .ok packet ∧
        Carries packet data) ↔ data.length ≤ 65507) ∧
      (65507 < data.length →
        ∃ e, sendDatagram srcAddr srcPort dstAddr dstPort data = .error e) ∧
      ∀ (s : Stack) (id : SocketId), Reports (sendto s id data dstAddr dstPort) data ↔
        data.length ≤ 65507 ∨ ∀ sock, s.socketOf id = some sock → sock.kind ≠ .udp := by
  refine ⟨sendDatagram_ok_iff srcAddr srcPort dstAddr dstPort data, fun hlong ↦ ?_, ?_⟩
  · exact sendDatagram_error hlong srcAddr srcPort dstAddr dstPort
  · intro s id
    exact sendto_reports_iff s id data dstAddr dstPort

theorem send_datagram_total_longest :
    (∃ packet, sendDatagram 1 7 2 9 (zeros 65507) = .ok packet ∧ Carries packet (zeros 65507)) ∧
      Reports (sendto ((Stack.new 1).step .udpSocket) 1 (zeros 65507) 2 9) (zeros 65507) := by
  have hlen : (zeros 65507).length ≤ 65507 := (length_zeros 65507).le
  obtain ⟨hsend, -, hsendto⟩ := send_datagram_total_iff 1 7 2 9 (zeros 65507)
  exact ⟨hsend.mpr hlen, (hsendto _ 1).mpr (.inl hlen)⟩

theorem panics_of_zeros {n : ℕ} (hn : 65507 < n) :
    (∃ e, sendDatagram 1 7 2 9 (zeros n) = .error e) ∧
      ¬ Reports (sendto ((Stack.new 1).step .udpSocket) 1 (zeros n) 2 9) (zeros n) := by
  have hlong : 65507 < (zeros n).length := by rwa [length_zeros]
  refine ⟨sendDatagram_error hlong 1 7 2 9, fun hreports ↦ ?_⟩
  rcases (sendto_reports_iff _ 1 _ 2 9).mp hreports with hlen | hkind
  · exact absurd hlen (not_le.mpr hlong)
  · exact hkind _ rfl rfl

/-- The two boundaries: from 65508 bytes on the total length overflows, from 65528 bytes on
the buffer is made for the length modulo `2 ^ 16`. -/
theorem exists_send_datagram_panics :
    ((∃ e, sendDatagram 1 7 2 9 (zeros 65508) = .error e) ∧
        ¬ Reports (sendto ((Stack.new 1).step .udpSocket) 1 (zeros 65508) 2 9) (zeros 65508)) ∧
      (∃ e, sendDatagram 1 7 2 9 (zeros 65528) = .error e) ∧
        ¬ Reports (sendto ((Stack.new 1).step .udpSocket) 1 (zeros 65528) 2 9) (zeros 65528) :=
  ⟨panics_of_zeros (by decide), panics_of_zeros (by decide)⟩

end MiniTcp.Checked
