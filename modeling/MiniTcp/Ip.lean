import MiniTcp.Lib.BigEndian
import MiniTcp.Lib.BitFields
import MiniTcp.Lib.OnesComplement
import MiniTcp.Lib.Run

/-!
# IPv4 headers and the Internet checksum

The header codec and `checksum16` of `src/ip.rs`.  Byte slices are lists; a
function that fills a prefix of an output slice returns that prefix.
-/

open BigEndian BitFields OnesComplement

namespace MiniTcp

abbrev Bytes := List UInt8

/-- An IPv4 header in host byte order, without options. -/
structure IpHeader where
  version : UInt8
  ihl : UInt8
  tos : UInt8
  totalLength : UInt16
  identification : UInt16
  flags : UInt16
  fragmentOffset : UInt16
  ttl : UInt8
  protocol : UInt8
  headerChecksum : UInt16
  srcAddr : UInt32
  dstAddr : UInt32
  deriving DecidableEq, Repr

def ipHeaderLen : ℕ := 20

def readIpHeader (b : ℕ → UInt8) : IpHeader :=
  let flagsFrag := u16FromBe (b 6) (b 7)
  { version := b 0 >>> 4
    ihl := b 0 &&& 0x0F
    tos := b 1
    totalLength := u16FromBe (b 2) (b 3)
    identification := u16FromBe (b 4) (b 5)
    flags := (flagsFrag >>> 13) &&& 0x7
    fragmentOffset := flagsFrag &&& 0x1FFF
    ttl := b 8
    protocol := b 9
    headerChecksum := u16FromBe (b 10) (b 11)
    srcAddr := u32FromBe (b 12) (b 13) (b 14) (b 15)
    dstAddr := u32FromBe (b 16) (b 17) (b 18) (b 19) }

def parseIpHeader (bytes : Bytes) : Option IpHeader :=
  if bytes.length < ipHeaderLen then none else
  if bytes.getD 0 0 >>> 4 ≠ 4 then none else
  some (readIpHeader fun i ↦ bytes.getD i 0)

/-! ## The checksum -/

def sumWords : UInt32 → Bytes → UInt32
  | sum, a :: b :: rest => sumWords (sum + (u16FromBe a b).toUInt32) rest
  | sum, [last] => sum + last.toUInt32 <<< 8
  | sum, [] => sum

def foldCarry (sum : UInt32) : UInt32 := (sum &&& (0xFFFF : UInt32)) + (sum >>> 16)

/-- The carry-fold loop, at most `fuel` times round. -/
def foldCarries : ℕ → UInt32 → UInt32
  | 0, sum => sum
  | fuel + 1, sum => if sum >>> 16 ≠ 0 then foldCarries fuel (foldCarry sum) else sum

def checksum16 (data : Bytes) : UInt16 := ~~~(foldCarries 16 (sumWords 0 data)).toUInt16

def verifyIpChecksum (bytes : Bytes) : Bool :=
  if bytes.length < ipHeaderLen then false else checksum16 (bytes.take ipHeaderLen) == 0

def ipHeaderBytes (hdr : IpHeader) (csum : UInt16) : Bytes :=
  [(hdr.version <<< 4) ||| (hdr.ihl &&& 0x0F), hdr.tos] ++ u16ToBe hdr.totalLength ++
    u16ToBe hdr.identification ++
    u16ToBe (((hdr.flags &&& 0x7) <<< 13) ||| (hdr.fragmentOffset &&& 0x1FFF)) ++
    [hdr.ttl, hdr.protocol] ++ u16ToBe csum ++ u32ToBe hdr.srcAddr ++ u32ToBe hdr.dstAddr

def buildIpHeader (hdr : IpHeader) : Bytes :=
  ipHeaderBytes hdr (checksum16 (ipHeaderBytes hdr 0))

@[simp] theorem length_ipHeaderBytes (hdr : IpHeader) (csum : UInt16) :
    (ipHeaderBytes hdr csum).length = ipHeaderLen := rfl

/-- The headers the stack writes: no options, no fragments. -/
structure IpHeader.Plain (hdr : IpHeader) : Prop where
  version : hdr.version = 4
  ihl : hdr.ihl = 5
  flags : hdr.flags = 0
  fragmentOffset : hdr.fragmentOffset = 0

/-- What a written header reads as: each packed field is cut to its width. -/
theorem parseIpHeader_bytes {hdr : IpHeader} (hversion : hdr.version = 4) (csum : UInt16)
    (rest : Bytes) :
    parseIpHeader (ipHeaderBytes hdr csum ++ rest) =
      some { hdr with ihl := hdr.ihl % 16, flags := hdr.flags % 8
                      fragmentOffset := hdr.fragmentOffset % 8192, headerChecksum := csum } := by
  have hlen : ¬ (ipHeaderBytes hdr csum ++ rest).length < ipHeaderLen := by simp
  have hfirst : (ipHeaderBytes hdr csum ++ rest).getD 0 0 = packNibbles 4 hdr.ihl := by
    rw [← hversion]
    rfl
  have hfour : packNibbles 4 hdr.ihl >>> 4 = 4 := high_packNibbles 4 hdr.ihl
  rw [parseIpHeader, if_neg hlen, hfirst, if_neg (not_not.mpr hfour)]
  have hihl := low_packNibbles 4 hdr.ihl
  have hflags := high_packFields hdr.flags hdr.fragmentOffset
  have hoffset := low_packFields hdr.flags hdr.fragmentOffset
  simp only [packNibbles, packFields] at hfour hihl hflags hoffset
  simp only [readIpHeader, ipHeaderBytes, u16ToBe, u32ToBe, List.cons_append, List.nil_append,
    List.getD_cons_zero, List.getD_cons_succ, u16FromBe_toBe, u32FromBe_toBe, hversion, hfour, hihl,
    hflags, hoffset]

theorem parseIpHeader_append {hdr : IpHeader} (h : hdr.Plain) (csum : UInt16) (rest : Bytes) :
    parseIpHeader (ipHeaderBytes hdr csum ++ rest) = some { hdr with headerChecksum := csum } := by
  have hihl : hdr.ihl % 16 = hdr.ihl := by rw [h.ihl]; rfl
  have hflags : hdr.flags % 8 = hdr.flags := by rw [h.flags]; rfl
  have hoffset : hdr.fragmentOffset % 8192 = hdr.fragmentOffset := by rw [h.fragmentOffset]; rfl
  rw [parseIpHeader_bytes h.version, hihl, hflags, hoffset]

theorem parseIpHeader_version {bytes : Bytes} {hdr : IpHeader}
    (h : parseIpHeader bytes = some hdr) : hdr.version = 4 := by
  unfold parseIpHeader at h
  split_ifs at h with hlen hversion
  rw [← Option.some.inj h]
  exact not_not.mp hversion

theorem length_buildIpHeader (hdr : IpHeader) : (buildIpHeader hdr).length = ipHeaderLen := rfl

/-! ## What the loops compute -/

theorem toNat_shiftLeft_eight (last : UInt8) :
    (last.toUInt32 <<< 8).toNat = last.toNat * 256 := by
  have hlast := last.toNat_lt
  simp only [UInt32.toNat_shiftLeft, UInt8.toNat_toUInt32, UInt32.reduceToNat,
    Nat.shiftLeft_eq, Nat.reduceMod, Nat.reducePow]
  omega

theorem toNat_low (sum : UInt32) : (sum &&& (0xFFFF : UInt32)).toNat = sum.toNat % 65536 := by
  rw [UInt32.toNat_and]
  exact Nat.and_two_pow_sub_one_eq_mod sum.toNat 16

theorem toNat_high (sum : UInt32) : (sum >>> 16).toNat = sum.toNat / 65536 := by
  simp [UInt32.toNat_shiftRight, Nat.shiftRight_eq_div_pow]

theorem toNat_sumWords (sum : UInt32) (data : Bytes) :
    (sumWords sum data).toNat = (sum.toNat + wordSum data) % 2 ^ 32 := by
  induction sum, data using sumWords.induct with
  | case1 sum a b rest ih =>
      rw [sumWords, ih, wordSum]
      simp only [UInt32.toNat_add, UInt16.toNat_toUInt32, toNat_u16FromBe]
      omega
  | case2 sum last =>
      rw [sumWords, wordSum, UInt32.toNat_add, toNat_shiftLeft_eight]
  | case3 sum =>
      have hsum := sum.toNat_lt
      rw [sumWords, wordSum]
      omega

theorem toNat_foldCarry (sum : UInt32) : (foldCarry sum).toNat = carry sum.toNat := by
  have hsum := sum.toNat_lt
  rw [foldCarry, UInt32.toNat_add, toNat_low, toNat_high, carry]
  omega

theorem shiftRight_eq_zero_iff (sum : UInt32) : sum >>> 16 = 0 ↔ sum.toNat < 65536 := by
  rw [← UInt32.toNat_inj, toNat_high, UInt32.toNat_zero]
  omega

/-- The carry-fold loop, `n` times round. -/
def FoldLoop : ℕ → UInt32 → UInt32 → Prop := Run.Loops (fun sum ↦ sum >>> 16 ≠ 0) foldCarry

theorem exists_foldLoop (sum : UInt32) : ∃ n ≤ 2, ∃ folded, FoldLoop n sum folded := by
  apply Run.Loops.exists_of_iterate
  rw [not_not, shiftRight_eq_zero_iff]
  change (foldCarry (foldCarry sum)).toNat < 65536
  rw [toNat_foldCarry, toNat_foldCarry]
  exact carry_carry_lt sum.toNat_lt

theorem FoldLoop.toNat_eq {n : ℕ} {sum folded : UInt32} (h : FoldLoop n sum folded) :
    folded.toNat = residue sum.toNat := by
  induction h with
  | @stop sum hstop =>
      have hlt := (shiftRight_eq_zero_iff sum).mp (not_not.mp hstop)
      exact (residue_of_lt hlt).symm
  | round _ _ ih => rw [ih, toNat_foldCarry, residue_carry]

/-- Any fuel from the number of rounds on gives the end of the loop. -/
theorem FoldLoop.foldCarries_eq {n fuel : ℕ} {sum folded : UInt32} (h : FoldLoop n sum folded)
    (hfuel : n ≤ fuel) : foldCarries fuel sum = folded := by
  induction h generalizing fuel with
  | stop hstop =>
      cases fuel with
      | zero => rfl
      | succ fuel => rw [foldCarries, if_neg hstop]
  | round hgo _ ih =>
      obtain ⟨fuel, rfl⟩ := Nat.exists_eq_add_of_le' (Nat.le_of_add_left_le hfuel)
      rw [foldCarries, if_pos hgo, ih (Nat.le_of_succ_le_succ hfuel)]

theorem toNat_foldCarries (fuel : ℕ) (sum : UInt32) :
    (foldCarries (fuel + 2) sum).toNat = residue sum.toNat := by
  obtain ⟨n, hn, folded, hloop⟩ := exists_foldLoop sum
  rw [hloop.foldCarries_eq (by omega), hloop.toNat_eq]

theorem toNat_checksum16 {data : Bytes} (h : wordSum data < 2 ^ 32) :
    (checksum16 data).toNat = 65535 - residue (wordSum data) := by
  have hres := residue_le (wordSum data)
  have hsum : (foldCarries 16 (sumWords 0 data)).toNat = residue (wordSum data) := by
    rw [toNat_foldCarries 14, toNat_sumWords, UInt32.toNat_zero, Nat.zero_add,
      Nat.mod_eq_of_lt h]
  rw [checksum16, UInt16.toNat_not, UInt32.toNat_toUInt16, hsum]
  simp only [UInt16.size]
  omega

theorem checksum16_eq_zero_iff {data : Bytes} (h : data.length ≤ 131074) :
    checksum16 data = 0 ↔ wordSum data ≠ 0 ∧ wordSum data % 65535 = 0 := by
  have hres := residue_le (wordSum data)
  rw [← UInt16.toNat_inj, toNat_checksum16 (wordSum_lt h), UInt16.toNat_zero,
    ← residue_eq_ones_iff]
  omega

/-- The change of one byte is seen. -/
theorem checksum16_set {data : Bytes} {i : ℕ} {old new : UInt8} (h : data.length ≤ 131074)
    (hzero : checksum16 data = 0) (hold : data[i]? = some old) (hne : new ≠ old) :
    checksum16 (data.set i new) ≠ 0 := by
  intro hnew
  rw [checksum16_eq_zero_iff (by rwa [List.length_set])] at hnew
  rw [checksum16_eq_zero_iff h] at hzero
  exact wordSum_set_mod hold hne (hnew.2.trans hzero.2.symm)

section Field

variable {l r : Bytes}

theorem wordSum_field (hl : l.length % 2 = 0) (x : UInt16) :
    wordSum (l ++ u16ToBe x ++ r) = wordSum l + wordSum r + x.toNat := by
  have hx := x.toNat_lt
  have heven : (l ++ u16ToBe x).length % 2 = 0 := by simp; omega
  rw [wordSum_append heven, wordSum_append hl]
  simp only [u16ToBe, wordSum, UInt8.toNat_ofNat', UInt16.toNat_toUInt8]
  omega

theorem wordSum_field_lt (hl : l.length % 2 = 0) (hlen : l.length + 2 + r.length ≤ 131074)
    (x : UInt16) : wordSum l + wordSum r + x.toNat < 2 ^ 32 := by
  rw [← wordSum_field hl]
  apply wordSum_lt
  simp only [List.length_append, length_u16ToBe]
  omega

theorem toNat_checksum16_field (hl : l.length % 2 = 0) {x : UInt16}
    (hlt : wordSum l + wordSum r + x.toNat < 2 ^ 32) :
    (checksum16 (l ++ u16ToBe x ++ r)).toNat =
      65535 - residue (wordSum l + wordSum r + x.toNat) := by
  rw [toNat_checksum16 (by rwa [wordSum_field hl]), wordSum_field hl]

theorem wordSum_fill (hl : l.length % 2 = 0) (hlt : wordSum l + wordSum r < 2 ^ 32) :
    wordSum (l ++ u16ToBe (checksum16 (l ++ u16ToBe 0 ++ r)) ++ r) =
      wordSum l + wordSum r + (65535 - residue (wordSum l + wordSum r)) := by
  have hfield : (checksum16 (l ++ u16ToBe 0 ++ r)).toNat = _ := toNat_checksum16_field hl hlt
  rw [UInt16.toNat_zero, Nat.add_zero] at hfield
  rw [wordSum_field hl, hfield]

/-- Filling a zeroed word at an even offset with the checksum of the whole makes
the whole sum to the all-ones word, so that its checksum is zero. -/
theorem checksum16_fill_of_lt (hl : l.length % 2 = 0) (hlt : wordSum l + wordSum r < 2 ^ 32) :
    checksum16 (l ++ u16ToBe (checksum16 (l ++ u16ToBe 0 ++ r)) ++ r) = 0 := by
  have hfill := wordSum_fill hl hlt
  apply UInt16.toNat_inj.mp
  rw [toNat_checksum16 (hfill ▸ add_complement_lt hlt), hfill, residue_add_complement]
  rfl

theorem checksum16_fill (hl : l.length % 2 = 0) (hlen : l.length + 2 + r.length ≤ 131074) :
    checksum16 (l ++ u16ToBe (checksum16 (l ++ u16ToBe 0 ++ r)) ++ r) = 0 :=
  checksum16_fill_of_lt hl (wordSum_field_lt hl hlen 0)

/-- The word that makes the checksum zero is the checksum of the rest; the all-ones
word stands for zero. -/
theorem checksum16_unfill (hl : l.length % 2 = 0) (hlen : l.length + 2 + r.length ≤ 131074)
    (hne : wordSum l + wordSum r ≠ 0) {x : UInt16}
    (hx : checksum16 (l ++ u16ToBe x ++ r) = 0) :
    checksum16 (l ++ u16ToBe 0 ++ r) = if x = 0xFFFF then 0 else x := by
  have hres := residue_le (wordSum l + wordSum r + x.toNat)
  have hxlt := x.toNat_lt
  have hfull := toNat_checksum16_field hl (wordSum_field_lt hl hlen x)
  rw [hx, UInt16.toNat_zero] at hfull
  have hones : residue (wordSum l + wordSum r + x.toNat) = 65535 := by omega
  apply UInt16.toNat_inj.mp
  rw [toNat_checksum16_field hl (wordSum_field_lt hl hlen 0), UInt16.toNat_zero, Nat.add_zero,
    complement_unique hne (by omega) hones, apply_ite UInt16.toNat]
  simp only [← UInt16.toNat_inj, UInt16.reduceToNat]

end Field

theorem verifyIpChecksum_append (hdr : IpHeader) (rest : Bytes) :
    verifyIpChecksum (buildIpHeader hdr ++ rest) = true := by
  have htake : (buildIpHeader hdr ++ rest).take ipHeaderLen = buildIpHeader hdr :=
    List.take_left' (length_buildIpHeader hdr)
  have hlen : ¬ (buildIpHeader hdr ++ rest).length < ipHeaderLen := by
    rw [List.length_append, length_buildIpHeader]
    omega
  have hsplit (csum : UInt16) : ipHeaderBytes hdr csum = (ipHeaderBytes hdr 0).take 10 ++
      u16ToBe csum ++ (u32ToBe hdr.srcAddr ++ u32ToBe hdr.dstAddr) := rfl
  have hzero : checksum16 (buildIpHeader hdr) = 0 := by
    have hlen : ((ipHeaderBytes hdr 0).take 10).length = 10 := by
      rw [List.length_take, length_ipHeaderBytes]
      decide
    have hfill := checksum16_fill (l := (ipHeaderBytes hdr 0).take 10)
      (r := u32ToBe hdr.srcAddr ++ u32ToBe hdr.dstAddr) (by rw [hlen])
      (by rw [hlen, List.length_append, length_u32ToBe, length_u32ToBe]; decide)
    rw [← hsplit, ← hsplit] at hfill
    exact hfill
  rw [verifyIpChecksum, if_neg hlen, htake, hzero]
  rfl

end MiniTcp
