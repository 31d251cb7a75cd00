import MiniTcp.Checked.Wire

/-!
# The Internet checksum

`checksum16` against its definition in RFC 1071.  The accumulator has thirty-two bits and
every addition to it may overflow; it does so exactly if the sum of the words does not fit.
The loop that folds the carries goes round at most twice.  A word that was zero when the
checksum was taken can hold it, and the whole then has the checksum zero.
-/

open BigEndian OnesComplement Panic

namespace MiniTcp

namespace Checked

/-- The accumulator overflows if the sum does not fit. -/
theorem lt_of_sumWords {sum result : UInt32} {data : Bytes}
    (h : sumWords sum data = .ok result) : sum.toNat + wordSum data < 2 ^ 32 := by
  induction sum, data using MiniTcp.sumWords.induct with
  | case1 sum a b rest ih =>
      obtain ⟨next, hadd, hrest⟩ := of_bind_ok h
      obtain ⟨hlt, rfl⟩ := of_addU32 hadd
      have hsum := ih hrest
      rw [UInt32.toNat_add, Nat.mod_eq_of_lt hlt, UInt16.toNat_toUInt32, toNat_u16FromBe] at hsum
      rw [wordSum]
      omega
  | case2 sum last =>
      obtain ⟨hlt, -⟩ := of_addU32 h
      rwa [toNat_shiftLeft_eight] at hlt
  | case3 sum => exact sum.toNat_lt

theorem lt_of_checksum16 {data : Bytes} {csum : UInt16} (h : checksum16 data = .ok csum) :
    wordSum data < 2 ^ 32 := by
  obtain ⟨sum, hsum, -⟩ := of_bind_ok h
  have hlt := lt_of_sumWords hsum
  rwa [UInt32.toNat_zero, Nat.zero_add] at hlt

end Checked

/-- A buffer with two zero bytes, as the word between two parts. -/
theorem split_at_zeros {data : Bytes} {i : ℕ} (hfirst : data[i]? = some 0)
    (hsecond : data[i + 1]? = some 0) :
    data = data.take i ++ u16ToBe 0 ++ data.drop (i + 2) := by
  have hword : u16ToBe 0 = [0, 0] := by decide
  calc
    data = data.take i ++ data.drop i := (List.take_append_drop i data).symm
    _ = data.take i ++ ([0, 0] ++ data.drop (i + 2)) := by
      rw [List.drop_eq_getElem?_toList_append, hfirst, List.drop_eq_getElem?_toList_append, hsecond]
      rfl
    _ = data.take i ++ u16ToBe 0 ++ data.drop (i + 2) := by
      rw [hword, List.append_assoc]

/-- The checksum written over two zero bytes at an even offset. -/
theorem checksum16_written {data : Bytes} {i : ℕ} (hi : i % 2 = 0) (hfirst : data[i]? = some 0)
    (hsecond : data[i + 1]? = some 0) (hlt : wordSum data < 2 ^ 32) :
    ∃ filled, copyFromSlice data i (i + 2) (u16ToBe (checksum16 data)) = .ok filled ∧
      Checked.checksum16 filled = .ok 0 := by
  have hsplit := split_at_zeros hfirst hsecond
  have hle : i + 2 ≤ data.length := (List.getElem?_eq_some_iff.mp hsecond).1
  have heven : (data.take i).length % 2 = 0 := by
    rwa [List.length_take, Nat.min_eq_left (by omega)]
  have hparts : wordSum (data.take i) + wordSum (data.drop (i + 2)) < 2 ^ 32 := by
    rw [hsplit, wordSum_field heven] at hlt
    exact hlt
  have hfill := wordSum_fill heven hparts
  have hzero := checksum16_fill_of_lt heven hparts
  rw [← hsplit] at hfill hzero
  refine ⟨data.take i ++ u16ToBe (checksum16 data) ++ data.drop (i + 2), ?_, ?_⟩
  · rw [copyFromSlice, if_pos ⟨Nat.le_add_right i 2, hle⟩,
      if_pos (by rw [length_u16ToBe, Nat.add_sub_cancel_left])]
  · rw [Checked.checksum16_of_lt (hfill ▸ add_complement_lt hparts), hzero]

/-- Up to 131074 bytes no addition overflows, the carries are folded in at most two rounds
whatever fuel is left, and the result is the complement of the end-around sum.  Wherever
the checksum is computed without overflow, writing it over two zero bytes at an even offset
makes the checksum zero. -/
theorem checksum16_is_rfc1071 :
    (∀ data : Bytes, data.length ≤ 131074 → ∃ sum n folded,
      Checked.sumWords 0 data = .ok sum ∧ sum.toNat = wordSum data ∧
      n ≤ 2 ∧ FoldLoop n sum folded ∧
      (∀ fuel ≥ n, Checked.foldCarries fuel sum = .ok folded) ∧
      Checked.checksum16 data = .ok (checksum16 data) ∧
      checksum16 data = ~~~folded.toUInt16 ∧
      (checksum16 data).toNat = 0xFFFF - residue (wordSum data)) ∧
    ∀ (data : Bytes) (i : ℕ) (csum : UInt16), i % 2 = 0 → data[i]? = some 0 →
      data[i + 1]? = some 0 → Checked.checksum16 data = .ok csum →
      ∃ filled, copyFromSlice data i (i + 2) (u16ToBe csum) = .ok filled ∧
        Checked.checksum16 filled = .ok 0 := by
  constructor
  · intro data hlen
    have hlt := wordSum_lt hlen
    obtain ⟨n, hn, folded, hloop⟩ := exists_foldLoop (sumWords 0 data)
    refine ⟨sumWords 0 data, n, folded, ?_, ?_, hn, hloop, ?_, Checked.checksum16_ok hlen, ?_,
      toNat_checksum16 hlt⟩
    · exact Checked.sumWords_ok (by rwa [UInt32.toNat_zero, Nat.zero_add])
    · rw [toNat_sumWords, UInt32.toNat_zero, Nat.zero_add, Nat.mod_eq_of_lt hlt]
    · intro fuel hfuel
      rw [Checked.foldCarries_ok, hloop.foldCarries_eq hfuel]
    · rw [checksum16, hloop.foldCarries_eq (by omega)]
  · intro data i csum hi hfirst hsecond hcsum
    have hlt := Checked.lt_of_checksum16 hcsum
    rw [Checked.checksum16_of_lt hlt] at hcsum
    obtain rfl := Except.ok.inj hcsum
    exact checksum16_written hi hfirst hsecond hlt

/-- The vector of RFC 1071, and an odd number of bytes with room for the checksum. -/
theorem checksum16_is_rfc1071_vector :
    (∃ sum n folded, sum.toNat = 0x2ddf0 ∧ n ≤ 2 ∧ FoldLoop n sum folded ∧
      ~~~folded.toUInt16 = 0x220d) ∧
    ∃ filled, copyFromSlice [0x00, 0x01, 0x00, 0x00, 0xf4] 2 4 [0x0b, 0xfe] = .ok filled ∧
      Checked.checksum16 filled = .ok 0 := by
  obtain ⟨sum, n, folded, -, hsum, hn, hloop, -, -, hcsum, -⟩ :=
    checksum16_is_rfc1071.1 [0x00, 0x01, 0xf2, 0x03, 0xf4, 0xf5, 0xf6, 0xf7] (by decide)
  refine ⟨⟨sum, n, folded, hsum.trans (by decide), hn, hloop, ?_⟩, ?_⟩
  · rw [← hcsum]
    decide +kernel
  · exact checksum16_is_rfc1071.2 [0x00, 0x01, 0x00, 0x00, 0xf4] 2 0x0bfe rfl rfl rfl
      (by decide +kernel)

end MiniTcp
