import Mathlib.Data.UInt
import Mathlib.Data.List.Infix
import Mathlib.Tactic.Common

/-!
# Positions on the 32-bit sequence circle

A stream of fewer than `2 ^ 32` places is laid out from a base number `b`: place
`n` has number `shift b n`.  Two places of one stream never share a number, so an
exact match of numbers is an exact match of places whether or not the numbers
wrap.  Where they do not wrap, plain comparison agrees with the order of places.
-/

namespace Serial

/-- The number `n` places after `b` on the circle of `2 ^ 32` numbers. -/
def shift (b : UInt32) (n : ℕ) : UInt32 := b + UInt32.ofNat n

@[simp] theorem shift_zero (b : UInt32) : shift b 0 = b := by
  simp [shift]

theorem add_ofNat (b : UInt32) (n : ℕ) : b + UInt32.ofNat n = shift b n := rfl

theorem add_one (b : UInt32) : b + 1 = shift b 1 := rfl

theorem toNat_shift_mod (b : UInt32) (n : ℕ) :
    (shift b n).toNat = (b.toNat + n) % 2 ^ 32 := by
  simp [shift]

@[simp] theorem shift_shift (b : UInt32) (m n : ℕ) :
    shift (shift b m) n = shift b (m + n) := by
  apply UInt32.toNat_inj.mp
  simp only [toNat_shift_mod]
  omega

theorem toNat_shift {b : UInt32} {n : ℕ} (h : b.toNat + n < 2 ^ 32) :
    (shift b n).toNat = b.toNat + n := by
  rw [toNat_shift_mod, Nat.mod_eq_of_lt h]

theorem shift_inj {b : UInt32} {m n : ℕ} (hm : m < 2 ^ 32) (hn : n < 2 ^ 32) :
    shift b m = shift b n ↔ m = n := by
  constructor
  · intro h
    have hnat := congrArg UInt32.toNat h
    simp only [toNat_shift_mod] at hnat
    have hb := b.toNat_lt
    omega
  · rintro rfl
    rfl

theorem toNat_shift_one_add_sub {b : UInt32} {n : ℕ} (h : n < 2 ^ 32) :
    (shift b (1 + n) - b - 1).toNat = n := by
  rw [UInt32.toNat_sub, UInt32.toNat_sub, toNat_shift_mod, UInt32.toNat_one]
  have hb := b.toNat_lt
  omega

theorem shift_sub_one {b : UInt32} {n : ℕ} : shift b (n + 1) - 1 = shift b n := by
  apply UInt32.toNat_inj.mp
  rw [UInt32.toNat_sub, toNat_shift_mod, toNat_shift_mod]
  have hb := b.toNat_lt
  simp only [UInt32.toNat_one]
  omega

/-- Moving the base moves the plain order along, as long as neither number has
passed below the base before or after the move. -/
theorem add_le_add_iff {b d x y : UInt32} (hx : b ≤ x) (hy : b ≤ y) (hx' : b + d ≤ x + d)
    (hy' : b + d ≤ y + d) : x + d ≤ y + d ↔ x ≤ y := by
  simp only [UInt32.le_iff_toNat_le, UInt32.toNat_add] at *
  have hb := b.toNat_lt
  have hd := d.toNat_lt
  have hxlt := x.toNat_lt
  have hylt := y.toNat_lt
  omega

/-- `y` is at or behind `x` on the circle: less than half of it lies between them. -/
def Covers (x y : UInt32) : Prop := (x - y).toNat < 2 ^ 31

instance (x y : UInt32) : Decidable (Covers x y) := inferInstanceAs (Decidable (_ < _))

/-- Within half the circle from the base, the plain order is the serial order. -/
theorem covers_iff {b x y : UInt32} {n : ℕ} (hn : n < 2 ^ 31) (hx : b ≤ x) (hy : b ≤ y)
    (hxn : x.toNat ≤ b.toNat + n) (hyn : y.toNat ≤ b.toNat + n) : Covers x y ↔ y ≤ x := by
  simp only [Covers, UInt32.le_iff_toNat_le, UInt32.toNat_sub] at *
  have hxlt := x.toNat_lt
  have hylt := y.toNat_lt
  omega

end Serial

/-!
## Pieces of a stream

`d` sits at place `p` of `S` when `d` is a prefix of `S.drop p`.
-/

namespace List

variable {α : Type*}

theorem take_append_of_prefix_drop {S d : List α} {k : ℕ} (hk : k ≤ S.length)
    (h : d <+: S.drop k) : S.take k ++ d = S.take (k + d.length) := by
  obtain ⟨t, ht⟩ := h
  have hS : S = S.take k ++ (d ++ t) := by rw [ht, take_append_drop]
  have hlen : (S.take k ++ d).length = k + d.length := by simp [hk]
  calc
    S.take k ++ d = ((S.take k ++ d) ++ t).take (k + d.length) := by
      rw [← hlen, take_left']
      rfl
    _ = S.take (k + d.length) := by rw [append_assoc, ← hS]

theorem length_le_of_prefix_drop {S d : List α} {k : ℕ} (hk : k ≤ S.length)
    (h : d <+: S.drop k) : k + d.length ≤ S.length := by
  have hlen := h.length_le
  rw [length_drop] at hlen
  omega

theorem prefix_drop_append {S d : List α} {p : ℕ} (x : List α) (hp : p ≤ S.length)
    (h : d <+: S.drop p) : d <+: (S ++ x).drop p := by
  rw [drop_append_of_le_length hp]
  exact h.trans (prefix_append _ _)

theorem getElem?_of_prefix_drop {S d : List α} {p i : ℕ} (h : d <+: S.drop p)
    (hi : i < d.length) : S[p + i]? = d[i]? := by
  obtain ⟨t, ht⟩ := h
  rw [← getElem?_drop, ← ht, getElem?_append_left hi]

end List

/-!
## Pieces with numbers

A piece carries the number of its first element.  Next to true pieces of the
stream there may be stale ones, whose number lies before place `k`; what they
carry does not matter, because they are never put at place `k` or later.
-/

namespace Serial

variable {α : Type*} {b s : UInt32} {S S' d : List α} {k k' : ℕ}

/-- The number of one of the first `k` places, or the one right before `b`. -/
def Passed (b : UInt32) (k : ℕ) (s : UInt32) : Prop := (∃ p < k, s = shift b p) ∨ s + 1 = b

theorem Passed.mono (h : Passed b k s) (hk : k ≤ k') : Passed b k' s := by
  rcases h with ⟨p, hp, hs⟩ | hs
  · exact .inl ⟨p, by omega, hs⟩
  · exact .inr hs

/-- `d`, numbered `s`, is a piece of the stream `S` laid out from `b`, or its
number was passed already. -/
def Piece (b : UInt32) (S : List α) (k : ℕ) (s : UInt32) (d : List α) : Prop :=
  (∃ p, s = shift b p ∧ p ≤ S.length ∧ d <+: S.drop p) ∨ Passed b k s

theorem Piece.mono (h : Piece b S k s d) (hS : S <+: S') (hk : k ≤ k') : Piece b S' k' s d := by
  obtain ⟨x, rfl⟩ := hS
  rcases h with ⟨p, hs, hp, hd⟩ | hpass
  · exact .inl ⟨p, hs, by simp; omega, List.prefix_drop_append x hp hd⟩
  · exact .inr (hpass.mono hk)

theorem Piece.prefix_drop (h : Piece b S k (shift b k) d) (hk : k ≤ S.length)
    (hS : S.length + 1 < 2 ^ 32) : d <+: S.drop k := by
  rcases h with ⟨p, hs, hp, hd⟩ | ⟨p, hp, hs⟩ | hs
  · rw [shift_inj (by omega) (by omega)] at hs
    rwa [hs]
  · rw [shift_inj (by omega) (by omega)] at hs
    omega
  · rw [add_one, shift_shift] at hs
    have h0 : k + 1 = 0 := (shift_inj (by omega) (by omega)).mp (hs.trans (shift_zero b).symm)
    omega

end Serial
