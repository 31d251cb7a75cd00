import MiniTcp.StackRun

/-!
# Which packets reach a handler

`dispatch_ip_packet` looks at the version, at the checksum of the first 20 bytes and at
the header length, which it only compares with the size of the buffer.  The rest of a
well-formed header it takes for granted: a padded packet is passed with its padding,
a fragment like a whole packet.  A header with options is dropped if the options change
its checksum.  Which packets are treated as they should be can be read off the header.
-/

namespace MiniTcp

/-- A whole IPv4 packet at the front of the buffer, with the bytes it carries. -/
structure WellFormed (buf : Bytes) (h : IpHeader) (payload : Bytes) : Prop where
  parse : parseIpHeader buf = some h
  version : h.version = 4
  checksum : checksum16 (buf.take (4 * h.ihl.toNat)) = 0
  ihl : 5 ≤ h.ihl.toNat
  header_le : 4 * h.ihl.toNat ≤ h.totalLength.toNat
  length_le : h.totalLength.toNat ≤ buf.length
  moreFragments : h.flags &&& 1 = 0
  fragmentOffset : h.fragmentOffset = 0
  payload_eq : payload = (buf.take h.totalLength.toNat).drop (4 * h.ihl.toNat)

/-- ICMP, TCP or UDP: there is a handler. -/
def IpHeader.Handled (h : IpHeader) : Prop := h.protocol = 1 ∨ h.protocol = 6 ∨ h.protocol = 17

/-- `dispatch_ip_packet` passes the payload to a handler. -/
def PassesOn (buf : Bytes) (h : IpHeader) (payload : Bytes) : Prop :=
  acceptedPacket buf = some (h, payload) ∧ h.Handled

/-- Exactly what is well formed goes to its handler, with its payload, and every other byte
string is ignored. -/
def DemuxesWellFormed (buf : Bytes) : Prop :=
  (∀ h payload, PassesOn buf h payload ↔ WellFormed buf h payload ∧ h.Handled) ∧
    ∀ (s : Stack) now iss,
      (∀ h payload, WellFormed buf h payload → h.Handled →
        s.dispatchIpPacket now iss buf = s.handlePacket now iss h payload) ∧
      ((∀ h payload, WellFormed buf h payload → ¬ h.Handled) →
        s.dispatchIpPacket now iss buf = (s, []))

/-- What the source takes for granted about a packet with a handler.  If the checksum of
the first 20 bytes is right and the header ends within the buffer, then it has at least 20
bytes, its own checksum is right, the packet fills the buffer and is no fragment.  If the
checksum of the first 20 bytes is wrong, it is not because of the options of a header that
is otherwise in order. -/
def TakenForGranted (buf : Bytes) : Prop :=
  ∀ h, parseIpHeader buf = some h → h.Handled →
    (checksum16 (buf.take 20) = 0 → 4 * h.ihl.toNat ≤ buf.length →
      5 ≤ h.ihl.toNat ∧ checksum16 (buf.take (4 * h.ihl.toNat)) = 0 ∧
        h.totalLength.toNat = buf.length ∧ h.flags &&& 1 = 0 ∧ h.fragmentOffset = 0) ∧
    (checksum16 (buf.take 20) ≠ 0 → 6 ≤ h.ihl.toNat →
      checksum16 (buf.take (4 * h.ihl.toNat)) = 0 → 4 * h.ihl.toNat ≤ h.totalLength.toNat →
      h.totalLength.toNat ≤ buf.length → h.flags &&& 1 = 0 → h.fragmentOffset ≠ 0)

variable {buf payload : Bytes} {h : IpHeader}

theorem length_of_parse (hparse : parseIpHeader buf = some h) : ipHeaderLen ≤ buf.length := by
  unfold parseIpHeader at hparse
  split_ifs at hparse with hlen
  exact not_lt.mp hlen

theorem verifyIpChecksum_iff (hlen : ipHeaderLen ≤ buf.length) :
    verifyIpChecksum buf = true ↔ checksum16 (buf.take 20) = 0 := by
  rw [verifyIpChecksum, if_neg (not_lt.mpr hlen), beq_iff_eq]
  rfl

theorem acceptedPacket_iff :
    acceptedPacket buf = some (h, payload) ↔ parseIpHeader buf = some h ∧
      checksum16 (buf.take 20) = 0 ∧ 4 * h.ihl.toNat ≤ buf.length ∧
      payload = buf.drop (4 * h.ihl.toNat) := by
  rw [acceptedPacket_eq_some, Nat.mul_comm]
  constructor
  · rintro ⟨hparse, hsum, hrest⟩
    exact ⟨hparse, (verifyIpChecksum_iff (length_of_parse hparse)).mp hsum, hrest⟩
  · rintro ⟨hparse, hsum, hrest⟩
    exact ⟨hparse, (verifyIpChecksum_iff (length_of_parse hparse)).mpr hsum, hrest⟩

theorem passesOn_iff_wellFormed (hbuf : TakenForGranted buf) :
    PassesOn buf h payload ↔ WellFormed buf h payload ∧ h.Handled := by
  refine and_congr_left fun hhandled ↦ ?_
  rw [acceptedPacket_iff]
  constructor
  · rintro ⟨hparse, hsum, hfits, rfl⟩
    obtain ⟨hihl, hsum', htotal, hmore, hoffset⟩ := (hbuf h hparse hhandled).1 hsum hfits
    refine ⟨hparse, parseIpHeader_version hparse, hsum', hihl, by omega, htotal.le, hmore,
      hoffset, ?_⟩
    rw [htotal, List.take_length]
  · intro hw
    have hfits := hw.header_le.trans hw.length_le
    obtain ⟨hright, hwrong⟩ := hbuf h hw.parse hhandled
    have hsum : checksum16 (buf.take 20) = 0 := by
      by_contra hne
      -- without options the two checksums are the same
      have hsix : 6 ≤ h.ihl.toNat := by
        have hihl := hw.ihl
        by_contra hless
        have hfive : h.ihl.toNat = 5 := by omega
        have hchecksum := hw.checksum
        rw [hfive] at hchecksum
        exact hne hchecksum
      exact hwrong hne hsix hw.checksum hw.header_le hw.length_le hw.moreFragments
        hw.fragmentOffset
    refine ⟨hw.parse, hsum, hfits, ?_⟩
    rw [hw.payload_eq, (hright hsum hfits).2.2.1, List.take_length]

theorem takenForGranted_of_passesOn
    (hbuf : ∀ h payload, PassesOn buf h payload ↔ WellFormed buf h payload ∧ h.Handled) :
    TakenForGranted buf := by
  refine fun h hparse hhandled ↦ ⟨fun hsum hfits ↦ ?_, ?_⟩
  · have hpass : PassesOn buf h (buf.drop (4 * h.ihl.toNat)) :=
      ⟨acceptedPacket_iff.mpr ⟨hparse, hsum, hfits, rfl⟩, hhandled⟩
    obtain ⟨hw, -⟩ := (hbuf _ _).mp hpass
    refine ⟨hw.ihl, hw.checksum, ?_, hw.moreFragments, hw.fragmentOffset⟩
    -- the two payloads end at the same byte
    have hlen := congrArg List.length hw.payload_eq
    have hle := hw.header_le
    have hle' := hw.length_le
    rw [List.length_drop, List.length_drop, List.length_take] at hlen
    omega
  · intro hsum hsix hsum' hle hle' hmore hoffset
    have hw : WellFormed buf h ((buf.take h.totalLength.toNat).drop (4 * h.ihl.toNat)) :=
      ⟨hparse, parseIpHeader_version hparse, hsum', by omega, hle, hle', hmore, hoffset, rfl⟩
    obtain ⟨hpass, -⟩ := (hbuf _ _).mpr ⟨hw, hhandled⟩
    exact hsum (acceptedPacket_iff.mp hpass).2.1

theorem Stack.handlePacket_of_not_handled (s : Stack) (now : Instant) (iss : UInt32)
    (payload : Bytes) (hno : ¬ h.Handled) : s.handlePacket now iss h payload = (s, []) := by
  rw [IpHeader.Handled, not_or, not_or] at hno
  rw [handlePacket, if_neg hno.1, if_neg hno.2.2, if_neg hno.2.1]

/-- A packet is demultiplexed as it should be exactly if what the source takes for granted
about its header is so. -/
theorem demuxes_wellFormed_iff (buf : Bytes) : DemuxesWellFormed buf ↔ TakenForGranted buf := by
  refine ⟨fun hbuf ↦ takenForGranted_of_passesOn hbuf.1, fun hbuf ↦ ?_⟩
  refine ⟨fun h payload ↦ passesOn_iff_wellFormed hbuf, fun s now iss ↦ ⟨?_, ?_⟩⟩
  · intro h payload hw hhandled
    rw [Stack.dispatchIpPacket, ((passesOn_iff_wellFormed hbuf).mpr ⟨hw, hhandled⟩).1]
  · intro hnone
    rw [Stack.dispatchIpPacket]
    cases hacc : acceptedPacket buf with
    | none => rfl
    | some accepted =>
        obtain ⟨h, payload⟩ := accepted
        refine s.handlePacket_of_not_handled now iss payload fun hhandled ↦ ?_
        exact hnone h payload ((passesOn_iff_wellFormed hbuf).mp ⟨hacc, hhandled⟩).1 hhandled

/-- A datagram to port 7, as the stack itself would send it. -/
def datagram : Bytes := (sendDatagram 2 9 1 7 [1, 2, 3]).getD []

namespace Stack

/-- A stack with a socket bound to port 7. -/
def bound : Stack := ((new 1).step .udpSocket).step (.bind 1 1 7)

theorem reachable_bound : bound.Reachable := ((reachable_new 1).step _).step _

def queued (s : Stack) : Option (List Bytes) :=
  (s.udp.binding (1, 7)).map fun b ↦ b.recvQueue.map UdpDatagram.data

end Stack

/-- The middle of a datagram: the bytes from offset 8 on, and more to come. -/
def fragment : Bytes :=
  buildIpHeader { datagramHeader 2 1 11 with flags := 1, fragmentOffset := 1 } ++
    udpBytes 9 7 11 0 [1, 2, 3]

/-- A header length of zero: the handler takes the IP header for a datagram, and the
total length for its port. -/
def headless : Bytes := buildIpHeader { datagramHeader 2 1 0 with ihl := 0, totalLength := 7 }

theorem not_wellFormed
    (hbuf : (parseIpHeader buf).all (fun h ↦ h.fragmentOffset ≠ 0 ∨ h.ihl.toNat < 5) = true) :
    ∀ h payload, ¬ WellFormed buf h payload := by
  intro h payload hw
  rw [hw.parse, Option.all_some, decide_eq_true_iff] at hbuf
  rcases hbuf with hoffset | hihl
  · exact hoffset hw.fragmentOffset
  · exact absurd hw.ihl (not_le.mpr hihl)

theorem exists_malformed_delivered :
    ∃ s : Stack, s.Reachable ∧ s.queued = some [] ∧
      -- two bytes of padding arrive as data
      (∃ h payload, WellFormed (datagram ++ [0, 0]) h payload ∧ payload.drop 8 = [1, 2, 3]) ∧
      (s.dispatchIpPacket 0 0 (datagram ++ [0, 0])).1.queued = some [[1, 2, 3, 0, 0]] ∧
      (∀ h payload, ¬ WellFormed fragment h payload) ∧
      (s.dispatchIpPacket 0 0 fragment).1.queued = some [[1, 2, 3]] ∧
      (∀ h payload, ¬ WellFormed headless h payload) ∧
      (s.dispatchIpPacket 0 0 headless).1.queued = some [headless.drop 8] := by
  refine ⟨Stack.bound, Stack.reachable_bound, by decide +kernel, ?_, by decide +kernel, ?_,
    by decide +kernel, ?_, by decide +kernel⟩
  · refine ⟨readIpHeader fun i ↦ (datagram ++ [0, 0]).getD i 0, datagram.drop 20, ?_,
      by decide +kernel⟩
    constructor <;> decide +kernel
  · exact not_wellFormed (by decide +kernel)
  · exact not_wellFormed (by decide +kernel)

end MiniTcp
