import Mathlib.Data.List.GetD
import MiniTcp.Ip

/-!
# The header codec in both directions

Reading what was written gives the header back with every packed field cut to its
width.  Writing what was read gives the bytes back: all fields are cut from the bytes
without overlap, and the checksum field is the only word that completes the sum, up to
the two representations of zero.
-/

open BigEndian BitFields OnesComplement

namespace MiniTcp

/-- Writing a header that was read puts every byte in its place, the checksum apart. -/
theorem ipHeaderBytes_read (b : ℕ → UInt8) (csum : UInt16) :
    ipHeaderBytes (readIpHeader b) csum =
      (List.range 10).map b ++ u16ToBe csum ++ (List.range' 12 8).map b := by
  have hfirst := packNibbles_split (b 0)
  have hfields := packFields_split (u16FromBe (b 6) (b 7))
  simp only [packNibbles, packFields] at hfirst hfields
  simp only [ipHeaderBytes, readIpHeader, hfirst, hfields, u16ToBe_fromBe, u32ToBe_fromBe]
  rfl

theorem eq_map_getD {b : Bytes} (hlen : b.length = ipHeaderLen) :
    b = (List.range ipHeaderLen).map fun i ↦ b.getD i 0 := by
  apply List.ext_getElem
  · rw [hlen, List.length_map, List.length_range]
  · intro i hi _
    rw [List.getElem_map, List.getElem_range, List.getD_eq_getElem _ _ hi]

/-- The checksum field of a header that verifies is the one that would be written. -/
theorem checksum16_read {b : ℕ → UInt8} (hversion : b 0 >>> 4 = 4)
    (hzero : checksum16 ((List.range ipHeaderLen).map b) = 0) :
    checksum16 (ipHeaderBytes (readIpHeader b) 0) =
      if u16FromBe (b 10) (b 11) = 0xFFFF then 0 else u16FromBe (b 10) (b 11) := by
  have hsplit : (List.range ipHeaderLen).map b =
      (List.range 10).map b ++ u16ToBe (u16FromBe (b 10) (b 11)) ++ (List.range' 12 8).map b := by
    rw [u16ToBe_fromBe]
    rfl
  have hpos : (b 0).toNat ≠ 0 := by
    intro hnil
    have hfirst := toNat_highNibble (b 0)
    rw [hversion, hnil] at hfirst
    cases hfirst
  have hsum : wordSum ((List.range 10).map b) + wordSum ((List.range' 12 8).map b) ≠ 0 := by
    have hfront : wordSum ((List.range 10).map b) =
        (b 0).toNat * 256 + (b 1).toNat + wordSum ((List.range' 2 8).map b) := rfl
    omega
  rw [ipHeaderBytes_read]
  rw [hsplit] at hzero
  apply checksum16_unfill _ _ hsum hzero
  · rw [List.length_map, List.length_range]
  · rw [List.length_map, List.length_range, List.length_map, List.length_range']
    decide

theorem buildIpHeader_read {b : ℕ → UInt8} (hversion : b 0 >>> 4 = 4)
    (hzero : checksum16 ((List.range ipHeaderLen).map b) = 0) :
    buildIpHeader (readIpHeader b) =
      if u16FromBe (b 10) (b 11) = 0xFFFF
      then (((List.range ipHeaderLen).map b).set 10 0).set 11 0
      else (List.range ipHeaderLen).map b := by
  rw [buildIpHeader, checksum16_read hversion hzero, ipHeaderBytes_read]
  split_ifs
  · rfl
  · rw [u16ToBe_fromBe]
    rfl

/-- Writing and reading a header, in both orders: each field is cut to its width, and of the
two representations of a zero checksum the computed one is written. -/
theorem ip_header_codec_canonical :
    (∀ hdr : IpHeader, hdr.version = 4 →
      parseIpHeader (buildIpHeader hdr) =
        some { hdr with ihl := hdr.ihl % 16, flags := hdr.flags % 8
                        fragmentOffset := hdr.fragmentOffset % 8192
                        headerChecksum := checksum16 (ipHeaderBytes hdr 0) }) ∧
    ∀ b : Bytes, b.length = ipHeaderLen → b.getD 0 0 >>> 4 = 4 → verifyIpChecksum b →
      ∃ hdr, parseIpHeader b = some hdr ∧
        buildIpHeader hdr = if hdr.headerChecksum = 0xFFFF then (b.set 10 0).set 11 0 else b := by
  constructor
  · intro hdr hversion
    have hparse := parseIpHeader_bytes hversion (checksum16 (ipHeaderBytes hdr 0)) []
    rwa [List.append_nil] at hparse
  · intro b hlen hversion hverify
    have hbytes := eq_map_getD hlen
    have hzero : checksum16 b = 0 := by
      rw [verifyIpChecksum, if_neg (by omega), List.take_of_length_le hlen.le] at hverify
      exact eq_of_beq hverify
    rw [hbytes] at hzero
    have hbuild := buildIpHeader_read (b := fun i ↦ b.getD i 0) hversion hzero
    rw [← hbytes] at hbuild
    have hparse : parseIpHeader b = some (readIpHeader fun i ↦ b.getD i 0) := by
      rw [parseIpHeader, if_neg (by omega), if_neg (not_not.mpr hversion)]
    exact ⟨_, hparse, hbuild⟩

/-- A header whose checksum field holds the other representation of zero. -/
theorem ip_header_codec_canonical_ones :
    ∃ b hdr, verifyIpChecksum b ∧ parseIpHeader b = some hdr ∧ hdr.headerChecksum = 0xFFFF ∧
      buildIpHeader hdr = (b.set 10 0).set 11 0 := by
  let b : Bytes := [0x45, 0, 0xBA, 0xFF, 0, 0, 0, 0, 0, 0, 0xFF, 0xFF, 0, 0, 0, 0, 0, 0, 0, 0]
  have hverify : verifyIpChecksum b := by decide +kernel
  obtain ⟨hdr, hparse, hbuild⟩ := ip_header_codec_canonical.2 b rfl (by decide) hverify
  have hread : parseIpHeader b = some ⟨4, 5, 0, 0xBAFF, 0, 0, 0, 0, 0, 0xFFFF, 0, 0⟩ := by
    decide +kernel
  obtain rfl := Option.some.inj (hparse.symm.trans hread)
  exact ⟨b, _, hverify, hparse, rfl, hbuild⟩

end MiniTcp
