import MiniTcp.Ip
import MiniTcp.Lib.AssocMap

/-!
# UDP

The binding table and the datagram codec of `src/udp.rs`.  A datagram for a bound
address waits in the queue of the binding, any other one is echoed.
-/

open BigEndian

namespace MiniTcp

def udpHeaderLen : ℕ := 8

def defaultRecvQueueCapBytes : ℕ := 65536

structure UdpDatagram where
  srcAddr : UInt32
  srcPort : UInt16
  data : Bytes
  deriving DecidableEq, Repr

structure UdpBinding where
  recvQueue : List UdpDatagram
  recvQueueCapBytes : ℕ
  deriving DecidableEq, Repr

structure UdpTable where
  binds : AssocMap (UInt32 × UInt16) UdpBinding
  deriving DecidableEq

/-! ## Datagrams on the wire -/

def buildPseudoHeader (srcAddr dstAddr : UInt32) (udpLength : UInt16) : Bytes :=
  u32ToBe srcAddr ++ u32ToBe dstAddr ++ [0, 17] ++ u16ToBe udpLength

def udpBytes (srcPort dstPort udpLen csum : UInt16) (data : Bytes) : Bytes :=
  u16ToBe srcPort ++ u16ToBe dstPort ++ u16ToBe udpLen ++ u16ToBe csum ++ data

def datagramHeader (srcAddr dstAddr : UInt32) (udpLen : UInt16) : IpHeader where
  version := 4
  ihl := 5
  tos := 0
  totalLength := UInt16.ofNat ipHeaderLen + udpLen
  identification := 0
  flags := 0
  fragmentOffset := 0
  ttl := 64
  protocol := 17
  headerChecksum := 0
  srcAddr := srcAddr
  dstAddr := dstAddr

def udpChecksum (srcAddr : UInt32) (srcPort : UInt16) (dstAddr : UInt32) (dstPort udpLen : UInt16)
    (data : Bytes) : UInt16 :=
  checksum16 (buildPseudoHeader srcAddr dstAddr udpLen ++ udpBytes srcPort dstPort udpLen 0 data)

/-- `none` where the source panics: the length is cut to 16 bits, and then the buffer
made for it does not fit `data`; `20 + udp_len` is an addition of 16-bit numbers. -/
def sendDatagram (srcAddr : UInt32) (srcPort : UInt16) (dstAddr : UInt32) (dstPort : UInt16)
    (data : Bytes) : Option Bytes :=
  let udpLen := UInt16.ofNat (udpHeaderLen + data.length)
  if udpLen.toNat ≠ udpHeaderLen + data.length then none
  else if ipHeaderLen + udpLen.toNat ≥ 65536 then none
  else
    let csum := udpChecksum srcAddr srcPort dstAddr dstPort udpLen data
    some (buildIpHeader (datagramHeader srcAddr dstAddr udpLen) ++
      udpBytes srcPort dstPort udpLen csum data)

/-! ## The table -/

namespace UdpTable

def new : UdpTable where
  binds := ∅

def binding (t : UdpTable) (key : UInt32 × UInt16) : Option UdpBinding := t.binds.lookup key

def isBound (t : UdpTable) (key : UInt32 × UInt16) : Bool := (t.binding key).isSome

def bind (t : UdpTable) (addr : UInt32) (port : UInt16) (reuseAddr : Bool)
    (recvCapBytes : ℕ) : UdpTable × Bool :=
  if t.isBound (addr, port) && !reuseAddr then (t, false)
  else (⟨AList.insert (addr, port) ⟨[], recvCapBytes⟩ t.binds⟩, true)

def unbind (t : UdpTable) (key : UInt32 × UInt16) : UdpTable := ⟨AList.erase key t.binds⟩

def setRecvCap (t : UdpTable) (key : UInt32 × UInt16) (capBytes : ℕ) : UdpTable :=
  match t.binding key with
  | none => t
  | some b => ⟨AList.insert key { b with recvQueueCapBytes := capBytes } t.binds⟩

def recv (t : UdpTable) (key : UInt32 × UInt16) : UdpTable × Option UdpDatagram :=
  match t.binding key with
  | some ⟨dg :: rest, cap⟩ => (⟨AList.insert key ⟨rest, cap⟩ t.binds⟩, some dg)
  | _ => (t, none)

def deliver (t : UdpTable) (key : UInt32 × UInt16) (srcAddr : UInt32) (srcPort : UInt16)
    (data : Bytes) : UdpTable :=
  match t.binding key with
  | none => t
  | some b =>
      let used := (b.recvQueue.map fun dg ↦ dg.data.length).sum
      if used + data.length > b.recvQueueCapBytes then t
      else
        ⟨AList.insert key { b with recvQueue := b.recvQueue ++ [⟨srcAddr, srcPort, data⟩] }
          t.binds⟩

/-- Neither the length field nor the checksum of the datagram is looked at. -/
def handleDatagram (t : UdpTable) (ipHdr : IpHeader) (payload : Bytes) : UdpTable × List Bytes :=
  if payload.length < udpHeaderLen then (t, []) else
  let srcPort := u16FromBe (payload.getD 0 0) (payload.getD 1 0)
  let dstPort := u16FromBe (payload.getD 2 0) (payload.getD 3 0)
  let data := payload.drop udpHeaderLen
  if t.isBound (ipHdr.dstAddr, dstPort) then
    (t.deliver (ipHdr.dstAddr, dstPort) ipHdr.srcAddr srcPort data, [])
  else (t, (sendDatagram ipHdr.dstAddr dstPort ipHdr.srcAddr srcPort data).toList)

end UdpTable

/-! ## A datagram comes back as it was sent -/

variable {srcAddr dstAddr : UInt32} {srcPort dstPort : UInt16} {data : Bytes}

theorem plain_datagramHeader (srcAddr dstAddr : UInt32) (udpLen : UInt16) :
    (datagramHeader srcAddr dstAddr udpLen).Plain := ⟨rfl, rfl, rfl, rfl⟩

@[simp] theorem length_udpBytes (srcPort dstPort udpLen csum : UInt16) (data : Bytes) :
    (udpBytes srcPort dstPort udpLen csum data).length = udpHeaderLen + data.length := by
  simp only [udpBytes, udpHeaderLen, List.length_append, length_u16ToBe]

theorem drop_udpBytes (srcPort dstPort udpLen csum : UInt16) (data : Bytes) :
    (udpBytes srcPort dstPort udpLen csum data).drop udpHeaderLen = data := rfl

theorem sendDatagram_of_length (srcAddr : UInt32) (srcPort : UInt16) (dstAddr : UInt32)
    (dstPort : UInt16) (hlen : data.length ≤ 65507) :
    sendDatagram srcAddr srcPort dstAddr dstPort data =
      some (buildIpHeader (datagramHeader srcAddr dstAddr (UInt16.ofNat (8 + data.length))) ++
        udpBytes srcPort dstPort (UInt16.ofNat (8 + data.length))
          (udpChecksum srcAddr srcPort dstAddr dstPort (UInt16.ofNat (8 + data.length)) data)
          data) := by
  have hudp : (UInt16.ofNat (8 + data.length)).toNat = 8 + data.length := by
    rw [UInt16.toNat_ofNat']
    omega
  unfold sendDatagram udpHeaderLen ipHeaderLen
  dsimp only
  rw [hudp, if_neg (by simp), if_neg (by omega)]

/-- A written datagram sums to zero together with its pseudo-header. -/
theorem checksum16_udpBytes (srcAddr : UInt32) (srcPort : UInt16) (dstAddr : UInt32)
    (dstPort udpLen : UInt16) (hlen : data.length ≤ 65507) :
    checksum16 (buildPseudoHeader srcAddr dstAddr udpLen ++ udpBytes srcPort dstPort udpLen
      (udpChecksum srcAddr srcPort dstAddr dstPort udpLen data) data) = 0 := by
  have hsplit (csum : UInt16) : buildPseudoHeader srcAddr dstAddr udpLen ++
      udpBytes srcPort dstPort udpLen csum data =
        (buildPseudoHeader srcAddr dstAddr udpLen ++
          (u16ToBe srcPort ++ u16ToBe dstPort ++ u16ToBe udpLen)) ++ u16ToBe csum ++ data := by
    simp [udpBytes]
  have hfront : (buildPseudoHeader srcAddr dstAddr udpLen ++
      (u16ToBe srcPort ++ u16ToBe dstPort ++ u16ToBe udpLen)).length = 18 := rfl
  rw [hsplit, udpChecksum, hsplit]
  apply checksum16_fill
  · rw [hfront]
  · rw [hfront]
    omega

end MiniTcp
