import Mathlib.Data.UInt
import Mathlib.Tactic.Common

/-!
# Sixteen-bit sums with end-around carry

Folding the carries of a sum back into its low sixteen bits keeps the sum modulo
`65535` and distinguishes the two representations of zero: only the sum `0` folds
to `0`, every other multiple of `65535` folds to `65535`.
-/

namespace OnesComplement

/-- What repeated end-around carry leaves of `n`. -/
def residue (n : ℕ) : ℕ := if n = 0 then 0 else (n - 1) % 65535 + 1

def carry (n : ℕ) : ℕ := n % 65536 + n / 65536

theorem residue_le (n : ℕ) : residue n ≤ 65535 := by
  unfold residue
  split <;> omega

theorem residue_of_lt {n : ℕ} (h : n < 65536) : residue n = n := by
  unfold residue
  split <;> omega

theorem residue_carry (n : ℕ) : residue (carry n) = residue n := by
  unfold residue carry
  by_cases h : n = 0
  · simp [h]
  · have hne : ¬ n % 65536 + n / 65536 = 0 := by omega
    rw [if_neg hne, if_neg h]
    omega

theorem carry_carry_lt {n : ℕ} (h : n < 2 ^ 32) : carry (carry n) < 65536 := by
  unfold carry
  omega

theorem residue_add_complement (n : ℕ) : residue (n + (65535 - residue n)) = 65535 := by
  unfold residue
  by_cases h : n = 0
  · simp [h]
  · rw [if_neg h, if_neg (by omega)]
    omega

/-- The complement leads to the next multiple of `65535`, and `2 ^ 32 - 1` is one. -/
theorem add_complement_lt {n : ℕ} (h : n < 2 ^ 32) : n + (65535 - residue n) < 2 ^ 32 := by
  unfold residue
  split_ifs <;> omega

theorem residue_eq_ones_iff {n : ℕ} : residue n = 65535 ↔ n ≠ 0 ∧ n % 65535 = 0 := by
  unfold residue
  by_cases h : n = 0
  · simp [h]
  · rw [if_neg h]
    omega

/-- A word that completes a non-zero sum to the all-ones word is its complement, up to
the two representations of zero. -/
theorem complement_unique {n x : ℕ} (hn : n ≠ 0) (hx : x ≤ 65535)
    (h : residue (n + x) = 65535) :
    65535 - residue n = if x = 65535 then 0 else x := by
  have hmod := (residue_eq_ones_iff.mp h).2
  unfold residue
  rw [if_neg hn]
  split_ifs <;> omega

/-- The sum of the big-endian words; an odd last byte is the high byte of a word. -/
def wordSum : List UInt8 → ℕ
  | [] => 0
  | [a] => a.toNat * 256
  | a :: b :: rest => a.toNat * 256 + b.toNat + wordSum rest

theorem wordSum_append {l : List UInt8} (h : l.length % 2 = 0) (r : List UInt8) :
    wordSum (l ++ r) = wordSum l + wordSum r := by
  induction l using wordSum.induct with
  | case1 => simp [wordSum]
  | case2 a => simp at h
  | case3 a b rest ih =>
      have hrest : rest.length % 2 = 0 := by
        simp only [List.length_cons] at h
        omega
      simp only [List.cons_append, wordSum, ih hrest]
      omega

theorem wordSum_le (l : List UInt8) : wordSum l ≤ 65535 * ((l.length + 1) / 2) := by
  induction l using wordSum.induct with
  | case1 => simp [wordSum]
  | case2 a =>
      have ha := a.toNat_lt
      simp only [wordSum, List.length_singleton]
      omega
  | case3 a b rest ih =>
      have ha := a.toNat_lt
      have hb := b.toNat_lt
      simp only [wordSum, List.length_cons]
      omega

/-- The longest input whose sum fits in thirty-two bits, whatever its bytes. -/
theorem wordSum_lt {l : List UInt8} (h : l.length ≤ 131074) : wordSum l < 2 ^ 32 := by
  have hle := wordSum_le l
  omega

/-- The weight of the byte at position `i` in the sum. -/
def weight (i : ℕ) : ℕ := if i % 2 = 0 then 256 else 1

theorem weight_add_two (i : ℕ) : weight (i + 2) = weight i := by
  rw [weight, weight, Nat.add_mod_right]

theorem wordSum_set {l : List UInt8} {i : ℕ} {old : UInt8} (h : l[i]? = some old) (new : UInt8) :
    wordSum (l.set i new) + weight i * old.toNat = wordSum l + weight i * new.toNat := by
  induction l using wordSum.induct generalizing i with
  | case1 => simp at h
  | case2 a =>
      obtain ⟨rfl, rfl⟩ : i = 0 ∧ a = old := by simpa [List.getElem?_singleton] using h
      simp only [List.set_cons_zero, wordSum, weight, Nat.zero_mod, if_true]
      omega
  | case3 a b rest ih =>
      rcases i with - | - | i
      · obtain rfl : a = old := by simpa using h
        simp only [List.set_cons_zero, wordSum, weight, Nat.zero_mod, if_true]
        omega
      · obtain rfl : b = old := by simpa using h
        have hweight : weight (0 + 1) = 1 := rfl
        simp only [List.set_cons_succ, List.set_cons_zero, wordSum, hweight]
        omega
      · have hrest := ih (i := i) (by simpa using h)
        simp only [List.set_cons_succ, wordSum, weight_add_two]
        omega

/-- A change of one byte shows in the sum modulo `65535`: it is a change by less than
`65535` in either direction. -/
theorem wordSum_set_mod {l : List UInt8} {i : ℕ} {old new : UInt8} (h : l[i]? = some old)
    (hne : new ≠ old) : wordSum (l.set i new) % 65535 ≠ wordSum l % 65535 := by
  have hsum := wordSum_set h new
  have hold := old.toNat_lt
  have hnew := new.toNat_lt
  have hdiff : new.toNat ≠ old.toNat := fun heq ↦ hne (UInt8.toNat_inj.mp heq)
  unfold weight at hsum
  split_ifs at hsum <;> omega

end OnesComplement
