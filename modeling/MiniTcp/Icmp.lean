import MiniTcp.Ip

/-!
# ICMP echo

`handle_icmp` of `src/icmp.rs`: an echo request is answered with the same identifier,
sequence number and payload, everything else is ignored.
-/

open BigEndian

namespace MiniTcp

def icmpEchoRequest : UInt8 := 8
def icmpEchoReply : UInt8 := 0
def icmpHeaderLen : ℕ := 8

def echoReplyBytes (payload : Bytes) (csum : UInt16) : Bytes :=
  [icmpEchoReply, 0] ++ u16ToBe csum ++ (payload.drop 4).take 2 ++ (payload.drop 6).take 2 ++
    payload.drop icmpHeaderLen

/-- The version, the type of service and the identification of the request are kept. -/
def echoReplyHeader (ipHdr : IpHeader) (len : ℕ) : IpHeader :=
  { ipHdr with
    srcAddr := ipHdr.dstAddr
    dstAddr := ipHdr.srcAddr
    protocol := 1
    ttl := 64
    ihl := 5
    totalLength := UInt16.ofNat (ipHeaderLen + len)
    flags := 0
    fragmentOffset := 0 }

def handleIcmp (ipHdr : IpHeader) (payload : Bytes) : List Bytes :=
  if payload.length < icmpHeaderLen then []
  else if payload.getD 0 0 ≠ icmpEchoRequest then []
  else
    let csum := checksum16 (echoReplyBytes payload 0)
    [buildIpHeader (echoReplyHeader ipHdr payload.length) ++ echoReplyBytes payload csum]

variable {ipHdr : IpHeader} {payload : Bytes}

theorem plain_echoReplyHeader (h : ipHdr.version = 4) (len : ℕ) :
    (echoReplyHeader ipHdr len).Plain := ⟨h, rfl, rfl, rfl⟩

theorem echoReplyBytes_eq (payload : Bytes) (csum : UInt16) :
    echoReplyBytes payload csum = [icmpEchoReply, 0] ++ u16ToBe csum ++ payload.drop 4 := by
  have htail : (payload.drop 4).take 2 ++ ((payload.drop 6).take 2 ++ payload.drop 8) =
      payload.drop 4 := by
    have h₆ : payload.drop 8 = (payload.drop 6).drop 2 := by rw [List.drop_drop]
    have h₄ : payload.drop 6 = (payload.drop 4).drop 2 := by rw [List.drop_drop]
    rw [h₆, List.take_append_drop, h₄, List.take_append_drop]
  rw [echoReplyBytes, icmpHeaderLen, List.append_assoc _ _ (payload.drop 8), List.append_assoc,
    htail]

theorem length_echoReplyBytes (csum : UInt16) (h : icmpHeaderLen ≤ payload.length) :
    (echoReplyBytes payload csum).length = payload.length := by
  rw [echoReplyBytes_eq]
  simp only [icmpHeaderLen] at h
  simp only [List.length_append, List.length_cons, List.length_nil, length_u16ToBe,
    List.length_drop]
  omega

theorem drop_echoReplyBytes (payload : Bytes) (csum : UInt16) :
    (echoReplyBytes payload csum).drop 4 = payload.drop 4 := by
  rw [echoReplyBytes_eq]
  rfl

theorem checksum16_echoReplyBytes (h : payload.length ≤ 65515) :
    checksum16 (echoReplyBytes payload (checksum16 (echoReplyBytes payload 0))) = 0 := by
  rw [echoReplyBytes_eq, echoReplyBytes_eq]
  apply checksum16_fill
  · rfl
  · simp only [List.length_cons, List.length_nil, List.length_drop]
    omega

end MiniTcp
