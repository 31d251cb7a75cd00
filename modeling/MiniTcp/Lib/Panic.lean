import Mathlib.Data.UInt
import Mathlib.Tactic.Common

/-!
# Computations that may panic

Indices, slices, unwrapped options and arithmetic as a build with overflow checks
performs them.  A slice of a buffer that is written through is a write into the buffer
at its offset.  Each operation comes with the condition under which it succeeds.
-/

inductive Panic where
  | badIndex
  | badSlice
  /-- `copy_from_slice` between slices of different lengths -/
  | lengthMismatch
  | unwrapNone
  | overflow
  deriving DecidableEq, Repr

namespace Panic

@[simp] theorem ok_bind {α β : Type} (a : α) (f : α → Except Panic β) :
    (Except.ok a >>= f) = f a := rfl

/-- A computation that did not panic, seen from its end. -/
theorem of_bind_ok {α β : Type} {x : Except Panic α} {f : α → Except Panic β} {b : β}
    (h : x >>= f = .ok b) : ∃ a, x = .ok a ∧ f a = .ok b := by
  cases x with
  | error e => cases h
  | ok a => exact ⟨a, rfl, h⟩

theorem pure_eq_ok {α : Type} (a : α) : (pure a : Except Panic α) = .ok a := rfl

def unwrap {α : Type} : Option α → Except Panic α
  | some a => .ok a
  | none => .error .unwrapNone

@[simp] theorem unwrap_some {α : Type} (a : α) : unwrap (some a) = .ok a := rfl

/-! ## Buffers -/

section Buffers

variable {α : Type} {b l m r src : List α} {i lo hi n : ℕ}

/-- `b[i]` -/
def index (b : List α) (i : ℕ) : Except Panic α :=
  match b[i]? with
  | some x => .ok x
  | none => .error .badIndex

/-- `&b[lo..hi]` -/
def slice (b : List α) (lo hi : ℕ) : Except Panic (List α) :=
  if lo ≤ hi ∧ hi ≤ b.length then .ok ((b.take hi).drop lo) else .error .badSlice

/-- `&b[lo..]` -/
def sliceFrom (b : List α) (lo : ℕ) : Except Panic (List α) := slice b lo b.length

/-- `b[i] = x` -/
def store (b : List α) (i : ℕ) (x : α) : Except Panic (List α) :=
  if i < b.length then .ok (b.set i x) else .error .badIndex

/-- `b[lo..hi].copy_from_slice(src)` -/
def copyFromSlice (b : List α) (lo hi : ℕ) (src : List α) : Except Panic (List α) :=
  if lo ≤ hi ∧ hi ≤ b.length then
    if src.length = hi - lo then .ok (b.take lo ++ src ++ b.drop hi) else .error .lengthMismatch
  else .error .badSlice

/-- `b.drain(..n)` -/
def drain (b : List α) (n : ℕ) : Except Panic (List α) :=
  if n ≤ b.length then .ok (b.drop n) else .error .badSlice

theorem index_of_lt (h : i < b.length) (d : α) : index b i = .ok (b.getD i d) := by
  rw [index, List.getElem?_eq_getElem h]
  simp [h]

theorem slice_of_le (hlo : lo ≤ hi) (hhi : hi ≤ b.length) :
    slice b lo hi = .ok ((b.take hi).drop lo) := if_pos ⟨hlo, hhi⟩

theorem sliceFrom_of_le (h : lo ≤ b.length) : sliceFrom b lo = .ok (b.drop lo) := by
  rw [sliceFrom, slice_of_le h le_rfl, List.take_length]

theorem length_of_store {b' : List α} {x : α} (h : store b i x = .ok b') :
    b'.length = b.length := by
  unfold store at h
  split_ifs at h
  obtain rfl := Except.ok.inj h
  exact List.length_set

theorem of_copyFromSlice {b' : List α} (h : copyFromSlice b lo hi src = .ok b') :
    lo ≤ hi ∧ hi ≤ b.length ∧ src.length = hi - lo ∧ b'.length = b.length := by
  unfold copyFromSlice at h
  split_ifs at h with hrange hsrc
  obtain rfl := Except.ok.inj h
  refine ⟨hrange.1, hrange.2, hsrc, ?_⟩
  simp only [List.length_append, List.length_take, List.length_drop]
  omega

theorem of_slice {b' : List α} (h : slice b lo hi = .ok b') : b'.length = hi - lo := by
  unfold slice at h
  split_ifs at h with hrange
  obtain rfl := Except.ok.inj h
  rw [List.length_drop, List.length_take]
  omega

theorem store_append {x y : α} (hi : i = l.length) :
    store (l ++ x :: r) i y = .ok (l ++ y :: r) := by
  have hlt : i < (l ++ x :: r).length := by
    rw [List.length_append, List.length_cons]
    omega
  rw [store, if_pos hlt, hi, List.set_append_right _ _ (Nat.le_refl _), Nat.sub_self,
    List.set_cons_zero]

theorem copyFromSlice_append (hlo : lo = l.length) (hhi : hi = l.length + m.length)
    (hsrc : src.length = m.length) :
    copyFromSlice (l ++ (m ++ r)) lo hi src = .ok (l ++ (src ++ r)) := by
  subst hlo hhi
  have hdrop : (l ++ (m ++ r)).drop (l.length + m.length) = r := by
    rw [List.drop_append, List.drop_eq_nil_of_le (Nat.le_add_right _ _), List.nil_append,
      Nat.add_sub_cancel_left, List.drop_left]
  rw [copyFromSlice, if_pos (by simp), if_pos (by omega), hdrop, List.take_left, List.append_assoc]

theorem copyFromSlice_tail (hlo : lo = l.length) (hhi : hi = (l ++ m).length)
    (hsrc : src.length = m.length) :
    copyFromSlice (l ++ m) lo hi src = .ok (l ++ src) := by
  have h := copyFromSlice_append (r := []) hlo (hhi.trans List.length_append) hsrc
  rwa [List.append_nil, List.append_nil] at h

theorem drain_of_le (h : n ≤ b.length) : drain b n = .ok (b.drop n) := if_pos h

end Buffers

/-! ## Arithmetic -/

/-- The sum of two numbers of `w` bits. -/
def add (w a b : ℕ) : Except Panic ℕ :=
  if a + b < 2 ^ w then .ok (a + b) else .error .overflow

def sub (a b : ℕ) : Except Panic ℕ := if b ≤ a then .ok (a - b) else .error .overflow

def mul (w a b : ℕ) : Except Panic ℕ :=
  if a * b < 2 ^ w then .ok (a * b) else .error .overflow

/-- `iter().sum()` -/
def sum (w : ℕ) : List ℕ → Except Panic ℕ := List.foldlM (add w) 0

def addU16 (a b : UInt16) : Except Panic UInt16 :=
  if a.toNat + b.toNat < 2 ^ 16 then .ok (a + b) else .error .overflow

def addU32 (a b : UInt32) : Except Panic UInt32 :=
  if a.toNat + b.toNat < 2 ^ 32 then .ok (a + b) else .error .overflow

def subU32 (a b : UInt32) : Except Panic UInt32 :=
  if b.toNat ≤ a.toNat then .ok (a - b) else .error .overflow

section Arithmetic

variable {w a b : ℕ}

theorem add_of_lt (h : a + b < 2 ^ w) : add w a b = .ok (a + b) := if_pos h

theorem of_add {c : ℕ} (h : add w a b = .ok c) : c = a + b := by
  unfold add at h
  split_ifs at h
  exact (Except.ok.inj h).symm

theorem sub_of_le (h : b ≤ a) : sub a b = .ok (a - b) := if_pos h

theorem mul_of_lt (h : a * b < 2 ^ w) : mul w a b = .ok (a * b) := if_pos h

theorem foldlM_add_of_lt {l : List ℕ} (h : a + l.sum < 2 ^ w) :
    l.foldlM (add w) a = .ok (a + l.sum) := by
  induction l generalizing a with
  | nil => rfl
  | cons x l ih =>
      rw [List.sum_cons] at h ⊢
      rw [List.foldlM_cons, add_of_lt (by omega), ok_bind, ih (by omega), Nat.add_assoc]

theorem sum_of_lt {l : List ℕ} (h : l.sum < 2 ^ w) : sum w l = .ok l.sum := by
  have hfold := foldlM_add_of_lt (w := w) (a := 0) (l := l) (by omega)
  rwa [Nat.zero_add] at hfold

theorem addU16_of_lt {a b : UInt16} (h : a.toNat + b.toNat < 2 ^ 16) : addU16 a b = .ok (a + b) :=
  if_pos h

theorem of_addU16 {a b c : UInt16} (h : addU16 a b = .ok c) : a.toNat + b.toNat < 2 ^ 16 := by
  unfold addU16 at h
  split_ifs at h with hlt
  exact hlt

theorem addU32_of_lt {a b : UInt32} (h : a.toNat + b.toNat < 2 ^ 32) : addU32 a b = .ok (a + b) :=
  if_pos h

theorem of_addU32 {a b c : UInt32} (h : addU32 a b = .ok c) :
    a.toNat + b.toNat < 2 ^ 32 ∧ c = a + b := by
  unfold addU32 at h
  split_ifs at h with hlt
  exact ⟨hlt, (Except.ok.inj h).symm⟩

theorem subU32_of_le {a b : UInt32} (h : b ≤ a) : subU32 a b = .ok (a - b) := if_pos h

end Arithmetic

end Panic
