import Mathlib.Data.UInt
import Mathlib.Tactic.Common

/-!
# Two fields in one word

A byte made of two fields of four bits, and a word of sixteen bits made of a field of
three bits above one of thirteen.  Each field is masked when it is written, so neither
reaches into the other, and a word is put together again from what is read of it.
-/

namespace BitFields

section Nibbles

def packNibbles (high low : UInt8) : UInt8 := (high <<< 4) ||| (low &&& 0x0F)

theorem toNat_lowNibble (b : UInt8) : (b &&& 0x0F).toNat = b.toNat % 16 :=
  Nat.and_two_pow_sub_one_eq_mod b.toNat 4

theorem toNat_highNibble (b : UInt8) : (b >>> 4).toNat = b.toNat / 16 := by
  simp [UInt8.toNat_shiftRight, Nat.shiftRight_eq_div_pow]

theorem toNat_packNibbles (high low : UInt8) :
    (packNibbles high low).toNat = high.toNat % 16 * 16 + low.toNat % 16 := by
  have hshift : (high <<< 4).toNat = (high.toNat % 16) <<< 4 := by
    simp only [UInt8.toNat_shiftLeft, UInt8.reduceToNat, Nat.shiftLeft_eq, Nat.reduceMod,
      Nat.reducePow]
    omega
  have hlt : low.toNat % 16 < 2 ^ 4 := Nat.mod_lt _ (by decide)
  rw [packNibbles, UInt8.toNat_or, hshift, toNat_lowNibble, ← Nat.shiftLeft_add_eq_or_of_lt hlt,
    Nat.shiftLeft_eq]

theorem high_packNibbles (high low : UInt8) : packNibbles high low >>> 4 = high % 16 := by
  apply UInt8.toNat_inj.mp
  rw [toNat_highNibble, toNat_packNibbles, UInt8.toNat_mod]
  simp only [UInt8.reduceToNat]
  omega

theorem low_packNibbles (high low : UInt8) : packNibbles high low &&& 0x0F = low % 16 := by
  apply UInt8.toNat_inj.mp
  rw [toNat_lowNibble, toNat_packNibbles, UInt8.toNat_mod]
  simp only [UInt8.reduceToNat]
  omega

theorem packNibbles_split (b : UInt8) : packNibbles (b >>> 4) (b &&& 0x0F) = b := by
  have hb := b.toNat_lt
  apply UInt8.toNat_inj.mp
  rw [toNat_packNibbles, toNat_highNibble, toNat_lowNibble]
  omega

end Nibbles

section ThreeThirteen

def packFields (high low : UInt16) : UInt16 := ((high &&& 0x7) <<< 13) ||| (low &&& 0x1FFF)

theorem toNat_lowField (w : UInt16) : (w &&& 0x1FFF).toNat = w.toNat % 8192 :=
  Nat.and_two_pow_sub_one_eq_mod w.toNat 13

theorem toNat_highField (w : UInt16) : ((w >>> 13) &&& 0x7).toNat = w.toNat / 8192 := by
  have hw := w.toNat_lt
  have hmask : ((w >>> 13) &&& 0x7).toNat = (w >>> 13).toNat % 8 :=
    Nat.and_two_pow_sub_one_eq_mod _ 3
  have hshift : (w >>> 13).toNat = w.toNat / 8192 := by
    simp [UInt16.toNat_shiftRight, Nat.shiftRight_eq_div_pow]
  omega

theorem toNat_packFields (high low : UInt16) :
    (packFields high low).toNat = high.toNat % 8 * 8192 + low.toNat % 8192 := by
  have hmask : (high &&& 0x7).toNat = high.toNat % 8 := Nat.and_two_pow_sub_one_eq_mod _ 3
  have hshift : ((high &&& 0x7) <<< 13).toNat = (high.toNat % 8) <<< 13 := by
    simp only [UInt16.toNat_shiftLeft, hmask, UInt16.reduceToNat, Nat.shiftLeft_eq,
      Nat.reduceMod, Nat.reducePow]
    omega
  have hlt : low.toNat % 8192 < 2 ^ 13 := Nat.mod_lt _ (by decide)
  rw [packFields, UInt16.toNat_or, hshift, toNat_lowField, ← Nat.shiftLeft_add_eq_or_of_lt hlt,
    Nat.shiftLeft_eq]

theorem high_packFields (high low : UInt16) :
    (packFields high low >>> 13) &&& 0x7 = high % 8 := by
  apply UInt16.toNat_inj.mp
  rw [toNat_highField, toNat_packFields, UInt16.toNat_mod]
  simp only [UInt16.reduceToNat]
  omega

theorem low_packFields (high low : UInt16) : packFields high low &&& 0x1FFF = low % 8192 := by
  apply UInt16.toNat_inj.mp
  rw [toNat_lowField, toNat_packFields, UInt16.toNat_mod]
  simp only [UInt16.reduceToNat]
  omega

theorem packFields_split (w : UInt16) :
    packFields ((w >>> 13) &&& 0x7) (w &&& 0x1FFF) = w := by
  have hw := w.toNat_lt
  apply UInt16.toNat_inj.mp
  rw [toNat_packFields, toNat_highField, toNat_lowField]
  omega

end ThreeThirteen

end BitFields
