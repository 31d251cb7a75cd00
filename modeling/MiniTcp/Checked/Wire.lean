import MiniTcp.Icmp
import MiniTcp.Lib.Panic
import MiniTcp.Tcp.Connection
import MiniTcp.Udp

/-!
# The codecs with their panics

The functions of `src/ip.rs`, `src/icmp.rs`, `src/udp.rs` and the segment codec of
`src/tcp.rs` once more, down to the single index, slice and addition, each of which may
panic.  On the lengths that a device can deliver none of them does, and the result is
that of the model without panics.
-/

open BigEndian OnesComplement Panic

namespace MiniTcp.Checked

/-- `vec![0u8; n]` -/
def zeros (n : ℕ) : Bytes := List.replicate n 0

/-! ## IPv4 -/

/-- `u16::from_be_bytes([bytes[i], bytes[i + 1]])` -/
def u16At (bytes : Bytes) (i : ℕ) : Except Panic UInt16 := do
  let a ← index bytes i
  let b ← index bytes (i + 1)
  return u16FromBe a b

def u32At (bytes : Bytes) (i : ℕ) : Except Panic UInt32 := do
  let a ← index bytes i
  let b ← index bytes (i + 1)
  let c ← index bytes (i + 2)
  let d ← index bytes (i + 3)
  return u32FromBe a b c d

def parseIpHeader (bytes : Bytes) : Except Panic (Option IpHeader) :=
  if bytes.length < ipHeaderLen then .ok none
  else do
    let first ← index bytes 0
    if first >>> 4 ≠ 4 then return none
    else
      let totalLength ← u16At bytes 2
      let identification ← u16At bytes 4
      let flagsFrag ← u16At bytes 6
      let headerChecksum ← u16At bytes 10
      let srcAddr ← u32At bytes 12
      let dstAddr ← u32At bytes 16
      let tos ← index bytes 1
      let ttl ← index bytes 8
      let protocol ← index bytes 9
      return some
        { version := first >>> 4
          ihl := first &&& 0x0F
          tos := tos
          totalLength := totalLength
          identification := identification
          flags := (flagsFrag >>> 13) &&& 0x7
          fragmentOffset := flagsFrag &&& 0x1FFF
          ttl := ttl
          protocol := protocol
          headerChecksum := headerChecksum
          srcAddr := srcAddr
          dstAddr := dstAddr }

def sumWords : UInt32 → Bytes → Except Panic UInt32
  | sum, a :: b :: rest => do
      let sum ← addU32 sum (u16FromBe a b).toUInt32
      sumWords sum rest
  | sum, [last] => addU32 sum (last.toUInt32 <<< 8)
  | sum, [] => .ok sum

def foldCarries : ℕ → UInt32 → Except Panic UInt32
  | 0, sum => .ok sum
  | fuel + 1, sum =>
      if sum >>> 16 ≠ 0 then do
        let sum ← addU32 (sum &&& (0xFFFF : UInt32)) (sum >>> 16)
        foldCarries fuel sum
      else .ok sum

def checksum16 (data : Bytes) : Except Panic UInt16 := do
  let sum ← sumWords 0 data
  let sum ← foldCarries 16 sum
  return ~~~sum.toUInt16

def verifyIpChecksum (bytes : Bytes) : Except Panic Bool :=
  if bytes.length < ipHeaderLen then .ok false
  else do
    let header ← slice bytes 0 ipHeaderLen
    let csum ← checksum16 header
    return csum == 0

def buildIpHeader (hdr : IpHeader) (out : Bytes) : Except Panic Bytes := do
  let out ← store out 0 ((hdr.version <<< 4) ||| (hdr.ihl &&& 0x0F))
  let out ← store out 1 hdr.tos
  let out ← copyFromSlice out 2 4 (u16ToBe hdr.totalLength)
  let out ← copyFromSlice out 4 6 (u16ToBe hdr.identification)
  let flagsFrag := ((hdr.flags &&& 0x7) <<< 13) ||| (hdr.fragmentOffset &&& 0x1FFF)
  let out ← copyFromSlice out 6 8 (u16ToBe flagsFrag)
  let out ← store out 8 hdr.ttl
  let out ← store out 9 hdr.protocol
  let out ← store out 10 0
  let out ← store out 11 0
  let out ← copyFromSlice out 12 16 (u32ToBe hdr.srcAddr)
  let out ← copyFromSlice out 16 20 (u32ToBe hdr.dstAddr)
  let header ← slice out 0 ipHeaderLen
  let csum ← checksum16 header
  copyFromSlice out 10 12 (u16ToBe csum)

/-- The end of every function that sends: make a buffer, write the header, copy the
payload behind it. -/
def ipPacket (hdr : IpHeader) (len : ℕ) (payload : Bytes) : Except Panic Bytes := do
  let size ← add 64 ipHeaderLen len
  let packet ← buildIpHeader hdr (zeros size)
  copyFromSlice packet ipHeaderLen packet.length payload

theorem u16At_of_lt {bytes : Bytes} {i : ℕ} (h : i + 1 < bytes.length) :
    u16At bytes i = .ok (u16FromBe (bytes.getD i 0) (bytes.getD (i + 1) 0)) := by
  rw [u16At, index_of_lt (by omega) 0, ok_bind, index_of_lt h 0, ok_bind, pure_eq_ok]

theorem u32At_of_lt {bytes : Bytes} {i : ℕ} (h : i + 3 < bytes.length) :
    u32At bytes i = .ok (u32FromBe (bytes.getD i 0) (bytes.getD (i + 1) 0)
      (bytes.getD (i + 2) 0) (bytes.getD (i + 3) 0)) := by
  rw [u32At, index_of_lt (by omega) 0, ok_bind, index_of_lt (by omega) 0, ok_bind,
    index_of_lt (by omega) 0, ok_bind, index_of_lt h 0, ok_bind, pure_eq_ok]

theorem parseIpHeader_ok (bytes : Bytes) :
    parseIpHeader bytes = .ok (MiniTcp.parseIpHeader bytes) := by
  unfold parseIpHeader MiniTcp.parseIpHeader
  split_ifs with hlen hversion
  · rfl
  all_goals
    have hlen : 20 ≤ bytes.length := not_lt.mp hlen
    rw [index_of_lt (by omega) 0, ok_bind]
  · rw [if_pos hversion]
    rfl
  · rw [if_neg hversion, u16At_of_lt (by omega), ok_bind, u16At_of_lt (by omega), ok_bind,
      u16At_of_lt (by omega), ok_bind, u16At_of_lt (by omega), ok_bind, u32At_of_lt (by omega),
      ok_bind, u32At_of_lt (by omega), ok_bind, index_of_lt (by omega) 0, ok_bind,
      index_of_lt (by omega) 0, ok_bind, index_of_lt (by omega) 0, ok_bind]
    rfl

theorem sumWords_ok {sum : UInt32} {data : Bytes} (h : sum.toNat + wordSum data < 2 ^ 32) :
    sumWords sum data = .ok (MiniTcp.sumWords sum data) := by
  induction sum, data using MiniTcp.sumWords.induct with
  | case1 sum a b rest ih =>
      rw [wordSum, ← Nat.add_assoc] at h
      have hword : ((u16FromBe a b).toUInt32).toNat = a.toNat * 256 + b.toNat := by
        rw [UInt16.toNat_toUInt32, toNat_u16FromBe]
      rw [← hword] at h
      have hlt := lt_of_le_of_lt (Nat.le_add_right _ _) h
      rw [← Nat.mod_eq_of_lt hlt, ← UInt32.toNat_add] at h
      rw [sumWords, MiniTcp.sumWords, addU32_of_lt hlt, ok_bind, ih h]
  | case2 sum last =>
      rw [wordSum] at h
      rw [sumWords, MiniTcp.sumWords, addU32_of_lt (by rwa [toNat_shiftLeft_eight])]
  | case3 sum => rfl

theorem foldCarries_ok (fuel : ℕ) (sum : UInt32) :
    foldCarries fuel sum = .ok (MiniTcp.foldCarries fuel sum) := by
  induction fuel generalizing sum with
  | zero => rfl
  | succ fuel ih =>
      have hsum := sum.toNat_lt
      rw [foldCarries, MiniTcp.foldCarries]
      split_ifs
      · rw [addU32_of_lt (by rw [toNat_low, toNat_high]; omega), ok_bind, ih]
        rfl
      · rfl

theorem checksum16_of_lt {data : Bytes} (h : wordSum data < 2 ^ 32) :
    checksum16 data = .ok (MiniTcp.checksum16 data) := by
  rw [checksum16, sumWords_ok (by rwa [UInt32.toNat_zero, Nat.zero_add]), ok_bind, foldCarries_ok,
    ok_bind]
  rfl

theorem checksum16_ok {data : Bytes} (h : data.length ≤ 131074) :
    checksum16 data = .ok (MiniTcp.checksum16 data) :=
  checksum16_of_lt (wordSum_lt h)

theorem verifyIpChecksum_ok (bytes : Bytes) :
    verifyIpChecksum bytes = .ok (MiniTcp.verifyIpChecksum bytes) := by
  unfold verifyIpChecksum MiniTcp.verifyIpChecksum
  split_ifs with hlen
  · rfl
  · have hle : (bytes.take ipHeaderLen).length ≤ 131074 :=
      (List.length_take_le _ _).trans (by decide)
    rw [slice_of_le (Nat.zero_le _) (not_lt.mp hlen), ok_bind, List.drop_zero, checksum16_ok hle]
    rfl

theorem zeros_add (m n : ℕ) : zeros (m + n) = zeros m ++ zeros n := List.replicate_add ..

theorem length_zeros (n : ℕ) : (zeros n).length = n := List.length_replicate

section Front

/-! The writers fill a zeroed buffer from the front: behind the bytes `l` already written there
are `n` zeros left, and then the part `rest` that is not theirs. -/

variable {l rest : Bytes} {n lo hi : ℕ}

theorem store_zeros {x : UInt8} (hlo : lo = l.length) :
    store (l ++ (zeros (n + 1) ++ rest)) lo x = .ok (l ++ [x] ++ (zeros n ++ rest)) := by
  rw [List.append_assoc]
  exact store_append hlo

theorem copyFromSlice_zeros {src : Bytes} {k : ℕ} (hlo : lo = l.length) (hhi : hi = l.length + k)
    (hsrc : src.length = k) :
    copyFromSlice (l ++ (zeros (n + k) ++ rest)) lo hi src =
      .ok (l ++ src ++ (zeros n ++ rest)) := by
  have hlen := length_zeros k
  rw [Nat.add_comm, zeros_add, List.append_assoc, List.append_assoc]
  exact copyFromSlice_append hlo (by rw [hlen, hhi]) (by rw [hlen, hsrc])

theorem copyFromSlice_u16ToBe {x : UInt16} (hlo : lo = l.length) (hhi : hi = l.length + 2) :
    copyFromSlice (l ++ (zeros (n + 2) ++ rest)) lo hi (u16ToBe x) =
      .ok (l ++ u16ToBe x ++ (zeros n ++ rest)) :=
  copyFromSlice_zeros hlo hhi rfl

theorem copyFromSlice_u32ToBe {x : UInt32} (hlo : lo = l.length) (hhi : hi = l.length + 4) :
    copyFromSlice (l ++ (zeros (n + 4) ++ rest)) lo hi (u32ToBe x) =
      .ok (l ++ u32ToBe x ++ (zeros n ++ rest)) :=
  copyFromSlice_zeros hlo hhi rfl

end Front

theorem fillIpChecksum (hdr : IpHeader) (csum : UInt16) (rest : Bytes) :
    copyFromSlice (ipHeaderBytes hdr 0 ++ rest) 10 12 (u16ToBe csum) =
      .ok (ipHeaderBytes hdr csum ++ rest) := by
  have hsplit (x : UInt16) : ipHeaderBytes hdr x ++ rest =
      (ipHeaderBytes hdr 0).take 10 ++
        (u16ToBe x ++ (u32ToBe hdr.srcAddr ++ u32ToBe hdr.dstAddr ++ rest)) := rfl
  rw [hsplit, hsplit]
  exact copyFromSlice_append rfl rfl rfl

theorem buildIpHeader_ok (hdr : IpHeader) (rest : Bytes) :
    buildIpHeader hdr (zeros ipHeaderLen ++ rest) = .ok (MiniTcp.buildIpHeader hdr ++ rest) := by
  have hlen : (ipHeaderBytes hdr 0).length ≤ 131074 := by
    rw [length_ipHeaderBytes]
    decide
  have hwrite : buildIpHeader hdr (zeros ipHeaderLen ++ rest) =
      slice (ipHeaderBytes hdr 0 ++ rest) 0 ipHeaderLen >>= fun header ↦
        checksum16 header >>= fun csum ↦
          copyFromSlice (ipHeaderBytes hdr 0 ++ rest) 10 12 (u16ToBe csum) := by
    rw [← List.nil_append (zeros ipHeaderLen ++ rest), ipHeaderLen, buildIpHeader,
      store_zeros (by rfl), ok_bind, store_zeros (by rfl), ok_bind,
      copyFromSlice_u16ToBe (by rfl) (by rfl), ok_bind,
      copyFromSlice_u16ToBe (by rfl) (by rfl), ok_bind]
    dsimp only
    rw [copyFromSlice_u16ToBe (by rfl) (by rfl), ok_bind, store_zeros (by rfl), ok_bind,
      store_zeros (by rfl), ok_bind, store_zeros (by rfl), ok_bind, store_zeros (by rfl), ok_bind,
      copyFromSlice_u32ToBe (by rfl) (by rfl), ok_bind,
      copyFromSlice_u32ToBe (by rfl) (by rfl), ok_bind]
    rfl
  rw [hwrite, slice_of_le (Nat.zero_le _) (by simp), List.take_left' (length_ipHeaderBytes hdr 0),
    List.drop_zero, ok_bind, checksum16_ok hlen, ok_bind, fillIpChecksum]
  rfl

theorem ipPacket_ok (hdr : IpHeader) {len : ℕ} {payload : Bytes} (hlen : payload.length = len)
    (h : len ≤ 65535) :
    ipPacket hdr len payload = .ok (MiniTcp.buildIpHeader hdr ++ payload) := by
  have hsize : ipHeaderLen + len < 2 ^ 64 := by
    simp only [ipHeaderLen]
    omega
  rw [ipPacket, add_of_lt hsize, ok_bind, zeros_add, buildIpHeader_ok, ok_bind,
    copyFromSlice_tail (length_buildIpHeader hdr).symm rfl (hlen.trans (length_zeros _).symm)]

/-! ## ICMP -/

def copyEchoData (payload buf : Bytes) : Except Panic Bytes :=
  if payload.length > icmpHeaderLen then do
    let data ← sliceFrom payload icmpHeaderLen
    copyFromSlice buf icmpHeaderLen buf.length data
  else .ok buf

/-- The reply before its checksum is filled in. -/
def blankEchoReply (payload : Bytes) : Except Panic Bytes := do
  let buf ← store (zeros payload.length) 0 icmpEchoReply
  let buf ← store buf 1 0
  let identifier ← slice payload 4 6
  let buf ← copyFromSlice buf 4 6 identifier
  let sequence ← slice payload 6 8
  let buf ← copyFromSlice buf 6 8 sequence
  copyEchoData payload buf

def handleIcmp (ipHdr : IpHeader) (payload : Bytes) : Except Panic (List Bytes) :=
  if payload.length < icmpHeaderLen then .ok []
  else do
    let icmpType ← index payload 0
    let _code ← index payload 1
    let _identifier ← u16At payload 4
    let _sequence ← u16At payload 6
    if icmpType ≠ icmpEchoRequest then .ok []
    else do
      let buf ← blankEchoReply payload
      let csum ← checksum16 buf
      let buf ← copyFromSlice buf 2 4 (u16ToBe csum)
      let total ← add 64 ipHeaderLen payload.length
      let hdr := { ipHdr with
        srcAddr := ipHdr.dstAddr
        dstAddr := ipHdr.srcAddr
        protocol := 1
        ttl := 64
        ihl := 5
        totalLength := UInt16.ofNat total
        flags := 0
        fragmentOffset := 0 }
      let packet ← ipPacket hdr payload.length buf
      return [packet]

theorem copyEchoData_ok {front buf data : Bytes} (hfront : front.length = 8)
    (hbuf : buf.length = 8) :
    copyEchoData (front ++ data) (buf ++ zeros data.length) = .ok (buf ++ data) := by
  unfold copyEchoData icmpHeaderLen
  split_ifs with hlen
  · rw [sliceFrom_of_le (by omega), ok_bind, List.drop_left' hfront,
      copyFromSlice_tail hbuf.symm rfl (length_zeros _).symm]
  · have hnil : data = [] := by
      rw [List.length_append, hfront] at hlen
      exact List.eq_nil_of_length_eq_zero (by omega)
    rw [hnil]
    rfl

theorem blankEchoReply_ok : ∀ {payload : Bytes}, 8 ≤ payload.length →
    blankEchoReply payload = .ok (echoReplyBytes payload 0)
  | a :: b :: c :: d :: e :: f :: g :: h :: data, _ => by
      have hcopy : copyEchoData ([a, b, c, d, e, f, g, h] ++ data)
          ([icmpEchoReply, 0, 0, 0, e, f, g, h] ++ zeros data.length) =
            .ok ([icmpEchoReply, 0, 0, 0, e, f, g, h] ++ data) :=
        copyEchoData_ok rfl rfl
      simpa [blankEchoReply, zeros, store, copyFromSlice, slice, List.replicate_succ,
        echoReplyBytes_eq, u16ToBe] using hcopy

theorem handleIcmp_ok (ipHdr : IpHeader) {payload : Bytes} (h : payload.length ≤ 65535) :
    handleIcmp ipHdr payload = .ok (MiniTcp.handleIcmp ipHdr payload) := by
  unfold handleIcmp MiniTcp.handleIcmp
  by_cases hshort : payload.length < icmpHeaderLen
  · rw [if_pos hshort, if_pos hshort]
  · have hlen : 8 ≤ payload.length := not_lt.mp hshort
    rw [if_neg hshort, if_neg hshort, index_of_lt (by omega) 0, ok_bind, index_of_lt (by omega) 0,
      ok_bind, u16At_of_lt (by omega), ok_bind, u16At_of_lt (by omega), ok_bind]
    split_ifs
    · rfl
    · have hblank := length_echoReplyBytes 0 hlen
      have hfill (csum : UInt16) : copyFromSlice (echoReplyBytes payload 0) 2 4 (u16ToBe csum) =
          .ok (echoReplyBytes payload csum) := by
        rw [echoReplyBytes_eq, echoReplyBytes_eq, List.append_assoc, List.append_assoc]
        exact copyFromSlice_append rfl rfl rfl
      rw [blankEchoReply_ok hlen, ok_bind, checksum16_ok (by omega), ok_bind, hfill, ok_bind,
        add_of_lt (by simp only [ipHeaderLen]; omega), ok_bind]
      dsimp only
      rw [ipPacket_ok _ (length_echoReplyBytes _ hlen) h, ok_bind]
      rfl

/-! ## UDP -/

/-- `if !data.is_empty() { buf[lo..].copy_from_slice(data) }` -/
def copyData (buf : Bytes) (lo : ℕ) (data : Bytes) : Except Panic Bytes :=
  if data.isEmpty then .ok buf else copyFromSlice buf lo buf.length data

def buildPseudoHeader (srcAddr dstAddr : UInt32) (udpLength : UInt16) (out : Bytes) :
    Except Panic Bytes := do
  let out ← copyFromSlice out 0 4 (u32ToBe srcAddr)
  let out ← copyFromSlice out 4 8 (u32ToBe dstAddr)
  let out ← store out 8 0
  let out ← store out 9 17
  copyFromSlice out 10 12 (u16ToBe udpLength)

def buildUdpPart (srcPort dstPort udpLen : UInt16) (data out : Bytes) : Except Panic Bytes := do
  let out ← copyFromSlice out 0 2 (u16ToBe srcPort)
  let out ← copyFromSlice out 2 4 (u16ToBe dstPort)
  let out ← copyFromSlice out 4 6 (u16ToBe udpLen)
  let out ← store out 6 0
  let out ← store out 7 0
  copyData out udpHeaderLen data

def sendDatagram (srcAddr : UInt32) (srcPort : UInt16) (dstAddr : UInt32) (dstPort : UInt16)
    (data : Bytes) : Except Panic Bytes := do
  let len ← add 64 udpHeaderLen data.length
  let udpLen := UInt16.ofNat len
  let size ← add 64 12 udpLen.toNat
  let pseudo ← slice (zeros size) 0 12
  let pseudo ← buildPseudoHeader srcAddr dstAddr udpLen pseudo
  let udpPart ← sliceFrom (zeros size) 12
  let udpPart ← buildUdpPart srcPort dstPort udpLen data udpPart
  -- the two parts are slices of one buffer
  let scratch := pseudo ++ udpPart
  let csum ← checksum16 scratch
  let scratch ← copyFromSlice scratch (12 + 6) (12 + 8) (u16ToBe csum)
  let totalLength ← addU16 (UInt16.ofNat ipHeaderLen) udpLen
  let payload ← sliceFrom scratch 12
  ipPacket { datagramHeader srcAddr dstAddr udpLen with totalLength := totalLength }
    udpLen.toNat payload

def deliver (t : UdpTable) (key : UInt32 × UInt16) (srcAddr : UInt32) (srcPort : UInt16)
    (data : Bytes) : Except Panic UdpTable :=
  match t.binding key with
  | none => .ok t
  | some b => do
      let used ← sum 64 (b.recvQueue.map fun dg ↦ dg.data.length)
      let size ← add 64 used data.length
      if size > b.recvQueueCapBytes then return t
      else
        return ⟨AList.insert key
          { b with recvQueue := b.recvQueue ++ [⟨srcAddr, srcPort, data⟩] } t.binds⟩

def handleDatagram (t : UdpTable) (ipHdr : IpHeader) (payload : Bytes) :
    Except Panic (UdpTable × List Bytes) :=
  if payload.length < udpHeaderLen then .ok (t, [])
  else do
    let srcPort ← u16At payload 0
    let dstPort ← u16At payload 2
    let data ← sliceFrom payload udpHeaderLen
    if t.isBound (ipHdr.dstAddr, dstPort) then do
      let t ← deliver t (ipHdr.dstAddr, dstPort) ipHdr.srcAddr srcPort data
      return (t, [])
    else do
      let packet ← sendDatagram ipHdr.dstAddr dstPort ipHdr.srcAddr srcPort data
      return (t, [packet])

theorem copyData_ok {buf data : Bytes} {lo : ℕ} (hlo : lo = buf.length) :
    copyData (buf ++ zeros data.length) lo data = .ok (buf ++ data) := by
  unfold copyData
  split_ifs with hempty
  · rw [List.isEmpty_iff.mp hempty]
    rfl
  · exact copyFromSlice_tail hlo rfl (length_zeros _).symm

theorem buildPseudoHeader_ok (srcAddr dstAddr : UInt32) (udpLength : UInt16) :
    buildPseudoHeader srcAddr dstAddr udpLength (zeros 12) =
      .ok (MiniTcp.buildPseudoHeader srcAddr dstAddr udpLength) := by
  have hbuf : zeros 12 = [] ++ (zeros 12 ++ []) := rfl
  rw [hbuf, buildPseudoHeader, copyFromSlice_u32ToBe (by rfl) (by rfl), ok_bind,
    copyFromSlice_u32ToBe (by rfl) (by rfl), ok_bind, store_zeros (by rfl), ok_bind,
    store_zeros (by rfl), ok_bind, copyFromSlice_u16ToBe (by rfl) (by rfl)]
  rfl

theorem buildUdpPart_ok (srcPort dstPort udpLen : UInt16) (data : Bytes) :
    buildUdpPart srcPort dstPort udpLen data (zeros (8 + data.length)) =
      .ok (udpBytes srcPort dstPort udpLen 0 data) := by
  rw [zeros_add, ← List.nil_append (zeros 8 ++ zeros data.length), buildUdpPart,
    copyFromSlice_u16ToBe (by rfl) (by rfl), ok_bind,
    copyFromSlice_u16ToBe (by rfl) (by rfl), ok_bind,
    copyFromSlice_u16ToBe (by rfl) (by rfl), ok_bind, store_zeros (by rfl), ok_bind,
    store_zeros (by rfl), ok_bind]
  exact copyData_ok rfl

theorem fillUdpChecksum (srcAddr dstAddr : UInt32) (srcPort dstPort udpLen csum : UInt16)
    (data : Bytes) :
    copyFromSlice (MiniTcp.buildPseudoHeader srcAddr dstAddr udpLen ++
        udpBytes srcPort dstPort udpLen 0 data) (12 + 6) (12 + 8) (u16ToBe csum) =
      .ok (MiniTcp.buildPseudoHeader srcAddr dstAddr udpLen ++
        udpBytes srcPort dstPort udpLen csum data) := by
  have hsplit (x : UInt16) : MiniTcp.buildPseudoHeader srcAddr dstAddr udpLen ++
      udpBytes srcPort dstPort udpLen x data =
        (MiniTcp.buildPseudoHeader srcAddr dstAddr udpLen ++
          (u16ToBe srcPort ++ u16ToBe dstPort ++ u16ToBe udpLen)) ++ (u16ToBe x ++ data) := by
    simp [udpBytes]
  rw [hsplit, hsplit]
  exact copyFromSlice_append rfl rfl rfl

theorem sendDatagram_ok (srcAddr : UInt32) (srcPort : UInt16) (dstAddr : UInt32)
    (dstPort : UInt16) {data : Bytes} (h : data.length ≤ 65507) :
    ∃ packet, sendDatagram srcAddr srcPort dstAddr dstPort data = .ok packet ∧
      MiniTcp.sendDatagram srcAddr srcPort dstAddr dstPort data = some packet := by
  have hudp : (UInt16.ofNat (8 + data.length)).toNat = 8 + data.length := by
    rw [UInt16.toNat_ofNat']
    omega
  have htwenty : (UInt16.ofNat ipHeaderLen).toNat = 20 := rfl
  have hpseudo (udpLen : UInt16) :
      (MiniTcp.buildPseudoHeader srcAddr dstAddr udpLen).length = 12 := rfl
  refine ⟨_, ?_, sendDatagram_of_length srcAddr srcPort dstAddr dstPort h⟩
  rw [sendDatagram, udpHeaderLen, add_of_lt (by omega), ok_bind]
  dsimp only
  rw [hudp, add_of_lt (by omega), ok_bind, zeros_add, slice_of_le (by omega) (by simp [zeros]),
    List.take_left' (length_zeros 12), List.drop_zero, ok_bind, buildPseudoHeader_ok, ok_bind,
    sliceFrom_of_le (by simp [zeros]), List.drop_left' (length_zeros 12), ok_bind,
    buildUdpPart_ok, ok_bind]
  rw [checksum16_ok (by simp [hpseudo, udpHeaderLen]; omega), ok_bind, fillUdpChecksum, ok_bind,
    addU16_of_lt (by rw [htwenty, hudp]; omega), ok_bind,
    sliceFrom_of_le (by simp [hpseudo]), List.drop_left' (hpseudo _), ok_bind]
  exact ipPacket_ok _ (length_udpBytes ..) (by omega)

theorem deliver_ok {t : UdpTable} {key : UInt32 × UInt16} {data : Bytes}
    (hfits : ∀ b, t.binding key = some b →
      (b.recvQueue.map fun dg ↦ dg.data.length).sum + data.length < 2 ^ 64)
    (srcAddr : UInt32) (srcPort : UInt16) :
    deliver t key srcAddr srcPort data = .ok (t.deliver key srcAddr srcPort data) := by
  unfold deliver UdpTable.deliver
  cases hb : t.binding key with
  | none => rfl
  | some b =>
      have hlt := hfits b hb
      dsimp only
      rw [sum_of_lt (lt_of_le_of_lt (Nat.le_add_right _ _) hlt), ok_bind, add_of_lt hlt, ok_bind]
      split_ifs <;> rfl

theorem handleDatagram_ok {t : UdpTable} {payload : Bytes} (h : payload.length ≤ 65507)
    (hfits : ∀ k b, t.binding k = some b →
      (b.recvQueue.map fun dg ↦ dg.data.length).sum + payload.length < 2 ^ 64)
    (ipHdr : IpHeader) :
    handleDatagram t ipHdr payload = .ok (t.handleDatagram ipHdr payload) := by
  unfold handleDatagram UdpTable.handleDatagram
  by_cases hshort : payload.length < udpHeaderLen
  · rw [if_pos hshort, if_pos hshort]
  · have hlen : 8 ≤ payload.length := not_lt.mp hshort
    have hdata : (payload.drop udpHeaderLen).length ≤ payload.length := by
      rw [List.length_drop]
      exact Nat.sub_le _ _
    rw [if_neg hshort, if_neg hshort, u16At_of_lt (by omega), ok_bind, u16At_of_lt (by omega),
      ok_bind, sliceFrom_of_le (not_lt.mp hshort), ok_bind]
    dsimp only
    split_ifs
    · rw [deliver_ok fun b hb ↦ lt_of_le_of_lt (Nat.add_le_add_left hdata _) (hfits _ b hb)]
      rfl
    · obtain ⟨packet, hchecked, hpure⟩ := sendDatagram_ok ipHdr.dstAddr
        (u16FromBe (payload.getD 2 0) (payload.getD 3 0)) ipHdr.srcAddr
        (u16FromBe (payload.getD 0 0) (payload.getD 1 0)) (hdata.trans h)
      rw [hchecked, hpure]
      rfl

/-! ## TCP segments -/

def parseTcpHeader (bytes : Bytes) : Except Panic (Option TcpHeader) :=
  if bytes.length < tcpHeaderLen then .ok none
  else do
    let srcPort ← u16At bytes 0
    let dstPort ← u16At bytes 2
    let seqNum ← u32At bytes 4
    let ackNum ← u32At bytes 8
    let dataOffsetReserved ← index bytes 12
    let flags ← index bytes 13
    let window ← u16At bytes 14
    let checksum ← u16At bytes 16
    let urgentPtr ← u16At bytes 18
    return some
      ⟨srcPort, dstPort, seqNum, ackNum, dataOffsetReserved, flags, window, checksum, urgentPtr⟩

def buildTcpHeader (hdr : TcpHeader) (out : Bytes) : Except Panic Bytes := do
  let out ← copyFromSlice out 0 2 (u16ToBe hdr.srcPort)
  let out ← copyFromSlice out 2 4 (u16ToBe hdr.dstPort)
  let out ← copyFromSlice out 4 8 (u32ToBe hdr.seqNum)
  let out ← copyFromSlice out 8 12 (u32ToBe hdr.ackNum)
  let out ← store out 12 hdr.dataOffsetReserved
  let out ← store out 13 hdr.flags
  let out ← copyFromSlice out 14 16 (u16ToBe hdr.window)
  let out ← copyFromSlice out 16 18 (u16ToBe hdr.checksum)
  copyFromSlice out 18 20 (u16ToBe hdr.urgentPtr)

def tcpChecksum (srcAddr dstAddr : UInt32) (segment : Bytes) : Except Panic UInt16 := do
  let size ← add 64 12 segment.length
  let buf ← copyFromSlice (zeros size) 0 4 (u32ToBe srcAddr)
  let buf ← copyFromSlice buf 4 8 (u32ToBe dstAddr)
  let buf ← store buf 8 0
  let buf ← store buf 9 6
  let buf ← copyFromSlice buf 10 12 (u16ToBe (UInt16.ofNat segment.length))
  let buf ← copyFromSlice buf 12 buf.length segment
  checksum16 buf

/-- The common tail of `send_segment` and `send_rst_for_unknown`, from the header on. -/
def sendPacket (p : Packet) : Except Panic Bytes := do
  let size ← add 64 tcpHeaderLen p.data.length
  let segment ← buildTcpHeader { p.hdr with checksum := 0 } (zeros size)
  let segment ← copyData segment tcpHeaderLen p.data
  let csum ← tcpChecksum p.srcAddr p.dstAddr segment
  let segment ← copyFromSlice segment 16 18 (u16ToBe csum)
  let total ← add 64 ipHeaderLen segment.length
  ipPacket { p.ipHeader with totalLength := UInt16.ofNat total } segment.length segment

theorem parseTcpHeader_ok (bytes : Bytes) :
    parseTcpHeader bytes = .ok (MiniTcp.parseTcpHeader bytes) := by
  unfold parseTcpHeader MiniTcp.parseTcpHeader
  split_ifs with hshort
  · rfl
  · have hlen : 20 ≤ bytes.length := not_lt.mp hshort
    rw [u16At_of_lt (by omega), ok_bind, u16At_of_lt (by omega), ok_bind, u32At_of_lt (by omega),
      ok_bind, u32At_of_lt (by omega), ok_bind, index_of_lt (by omega) 0, ok_bind,
      index_of_lt (by omega) 0, ok_bind, u16At_of_lt (by omega), ok_bind, u16At_of_lt (by omega),
      ok_bind, u16At_of_lt (by omega), ok_bind]
    rfl

theorem buildTcpHeader_ok (hdr : TcpHeader) (rest : Bytes) :
    buildTcpHeader hdr (zeros tcpHeaderLen ++ rest) =
      .ok (MiniTcp.buildTcpHeader hdr ++ rest) := by
  rw [← List.nil_append (zeros tcpHeaderLen ++ rest), tcpHeaderLen, buildTcpHeader,
    copyFromSlice_u16ToBe (by rfl) (by rfl), ok_bind,
    copyFromSlice_u16ToBe (by rfl) (by rfl), ok_bind,
    copyFromSlice_u32ToBe (by rfl) (by rfl), ok_bind,
    copyFromSlice_u32ToBe (by rfl) (by rfl), ok_bind, store_zeros (by rfl), ok_bind,
    store_zeros (by rfl), ok_bind, copyFromSlice_u16ToBe (by rfl) (by rfl), ok_bind,
    copyFromSlice_u16ToBe (by rfl) (by rfl), ok_bind, copyFromSlice_u16ToBe (by rfl) (by rfl)]
  rfl

theorem tcpChecksum_ok (srcAddr dstAddr : UInt32) {segment : Bytes}
    (h : segment.length ≤ 131062) :
    tcpChecksum srcAddr dstAddr segment = .ok (MiniTcp.tcpChecksum srcAddr dstAddr segment) := by
  have hpseudo : (tcpPseudoHeader srcAddr dstAddr segment.length).length = 12 := rfl
  have hwrite : tcpChecksum srcAddr dstAddr segment =
      copyFromSlice (tcpPseudoHeader srcAddr dstAddr segment.length ++ zeros segment.length) 12
        (tcpPseudoHeader srcAddr dstAddr segment.length ++ zeros segment.length).length segment >>=
          checksum16 := by
    rw [tcpChecksum, add_of_lt (by omega), ok_bind, zeros_add,
      ← List.nil_append (zeros 12 ++ zeros segment.length),
      copyFromSlice_u32ToBe (by rfl) (by rfl), ok_bind,
      copyFromSlice_u32ToBe (by rfl) (by rfl), ok_bind, store_zeros (by rfl), ok_bind,
      store_zeros (by rfl), ok_bind, copyFromSlice_u16ToBe (by rfl) (by rfl), ok_bind]
    rfl
  rw [hwrite, copyFromSlice_tail hpseudo.symm rfl (length_zeros _).symm, ok_bind,
    checksum16_ok (by rw [List.length_append, hpseudo]; omega)]
  rfl

theorem fillTcpChecksum (p : Packet) (csum : UInt16) :
    copyFromSlice p.blank 16 18 (u16ToBe csum) =
      .ok (MiniTcp.buildTcpHeader { p.hdr with checksum := csum } ++ p.data) := by
  have hsplit (x : UInt16) : MiniTcp.buildTcpHeader { p.hdr with checksum := x } ++ p.data =
      (u16ToBe p.hdr.srcPort ++ u16ToBe p.hdr.dstPort ++ u32ToBe p.hdr.seqNum ++
        u32ToBe p.hdr.ackNum ++ [p.hdr.dataOffsetReserved, p.hdr.flags] ++
        u16ToBe p.hdr.window) ++ (u16ToBe x ++ (u16ToBe p.hdr.urgentPtr ++ p.data)) := by
    simp [MiniTcp.buildTcpHeader]
  rw [Packet.blank, hsplit, hsplit]
  exact copyFromSlice_append rfl rfl rfl

theorem sendPacket_ok {p : Packet} (h : p.data.length ≤ mss) : sendPacket p = .ok p.bytes := by
  have hmss : mss = 1400 := rfl
  have hhdr : tcpHeaderLen = 20 := rfl
  have hip : ipHeaderLen = 20 := rfl
  have hblank := p.length_blank
  have hsegment := p.length_segment
  rw [sendPacket, add_of_lt (by omega), ok_bind, zeros_add, buildTcpHeader_ok, ok_bind,
    copyData_ok (length_buildTcpHeader _).symm, ok_bind, ← Packet.blank,
    tcpChecksum_ok _ _ (by omega), ok_bind, fillTcpChecksum, ok_bind, ← Packet.checksum,
    ← Packet.segment, add_of_lt (by omega), ok_bind, ipPacket_ok _ rfl (by omega)]
  rfl

end MiniTcp.Checked
