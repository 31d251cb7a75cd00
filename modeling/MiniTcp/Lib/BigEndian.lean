import Mathlib.Data.UInt
import Mathlib.Tactic.Common

/-!
# Big-endian byte order for sixteen- and thirty-two-bit words
-/

namespace BigEndian

def u16FromBe (a b : UInt8) : UInt16 := UInt16.ofNat (a.toNat * 256 + b.toNat)

def u16ToBe (x : UInt16) : List UInt8 :=
  [UInt8.ofNat (x.toNat / 256), x.toUInt8]

def u32FromBe (a b c d : UInt8) : UInt32 :=
  UInt32.ofNat (((a.toNat * 256 + b.toNat) * 256 + c.toNat) * 256 + d.toNat)

def u32ToBe (x : UInt32) : List UInt8 :=
  [UInt8.ofNat (x.toNat / 16777216), UInt8.ofNat (x.toNat / 65536),
    UInt8.ofNat (x.toNat / 256), x.toUInt8]

@[simp] theorem length_u16ToBe (x : UInt16) : (u16ToBe x).length = 2 := rfl

@[simp] theorem length_u32ToBe (x : UInt32) : (u32ToBe x).length = 4 := rfl

theorem toNat_u16FromBe (a b : UInt8) : (u16FromBe a b).toNat = a.toNat * 256 + b.toNat := by
  have ha := a.toNat_lt
  have hb := b.toNat_lt
  simp only [u16FromBe, UInt16.toNat_ofNat']
  omega

theorem toNat_u32FromBe (a b c d : UInt8) : (u32FromBe a b c d).toNat =
    ((a.toNat * 256 + b.toNat) * 256 + c.toNat) * 256 + d.toNat := by
  have ha := a.toNat_lt
  have hb := b.toNat_lt
  have hc := c.toNat_lt
  have hd := d.toNat_lt
  simp only [u32FromBe, UInt32.toNat_ofNat']
  omega

@[simp] theorem u16FromBe_toBe (x : UInt16) :
    u16FromBe (UInt8.ofNat (x.toNat / 256)) x.toUInt8 = x := by
  apply UInt16.toNat_inj.mp
  have hx := x.toNat_lt
  simp only [toNat_u16FromBe, UInt8.toNat_ofNat', UInt16.toNat_toUInt8]
  omega

@[simp] theorem u32FromBe_toBe (x : UInt32) :
    u32FromBe (UInt8.ofNat (x.toNat / 16777216)) (UInt8.ofNat (x.toNat / 65536))
      (UInt8.ofNat (x.toNat / 256)) x.toUInt8 = x := by
  apply UInt32.toNat_inj.mp
  have hx := x.toNat_lt
  simp only [toNat_u32FromBe, UInt8.toNat_ofNat', UInt32.toNat_toUInt8]
  omega

@[simp] theorem u16ToBe_fromBe (a b : UInt8) : u16ToBe (u16FromBe a b) = [a, b] := by
  have ha := a.toNat_lt
  have hb := b.toNat_lt
  have hhigh : UInt8.ofNat ((u16FromBe a b).toNat / 256) = a := by
    apply UInt8.toNat_inj.mp
    rw [UInt8.toNat_ofNat', toNat_u16FromBe]
    omega
  have hlow : (u16FromBe a b).toUInt8 = b := by
    apply UInt8.toNat_inj.mp
    rw [UInt16.toNat_toUInt8, toNat_u16FromBe]
    omega
  rw [u16ToBe, hhigh, hlow]

@[simp] theorem u32ToBe_fromBe (a b c d : UInt8) :
    u32ToBe (u32FromBe a b c d) = [a, b, c, d] := by
  have ha := a.toNat_lt
  have hb := b.toNat_lt
  have hc := c.toNat_lt
  have hd := d.toNat_lt
  have hbyte (n : ℕ) (x : UInt8) (hx : n % 256 = x.toNat) : UInt8.ofNat n = x := by
    apply UInt8.toNat_inj.mp
    rw [UInt8.toNat_ofNat', hx]
  have hlow : (u32FromBe a b c d).toUInt8 = d := by
    apply UInt8.toNat_inj.mp
    rw [UInt32.toNat_toUInt8, toNat_u32FromBe]
    omega
  rw [u32ToBe, hlow, toNat_u32FromBe, hbyte _ a (by omega), hbyte _ b (by omega),
    hbyte _ c (by omega)]

end BigEndian
