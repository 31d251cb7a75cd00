import Mathlib.Algebra.GroupWithZero.Nat
import Mathlib.Data.List.Chain
import Mathlib.Tactic.Common

/-!
# Lists that tile an interval

Items with a start and a length lie edge to edge and fill an interval of natural
numbers.  A queue of such items grows at its end and loses whole items at its
front; what is left still tiles the rest of the interval, so everything beyond the
point of removal stays covered.
-/

namespace Tiling

variable {τ : Type*} (pos len : τ → ℕ)

/-- The items fill `[a, b)`, edge to edge and none of them empty. -/
def Tiles : ℕ → ℕ → List τ → Prop
  | a, b, [] => a = b
  | a, b, u :: q => pos u = a ∧ 0 < len u ∧ Tiles (a + len u) b q

variable {pos len} {a b x : ℕ} {q q' : List τ} {u v : τ}

namespace Tiles

theorem le (h : Tiles pos len a b q) : a ≤ b := by
  induction q generalizing a with
  | nil => exact Nat.le_of_eq h
  | cons u q ih => exact (Nat.le_add_right a (len u)).trans (ih h.2.2)

theorem eq_nil_iff (h : Tiles pos len a b q) : q = [] ↔ a = b := by
  cases q with
  | nil => exact ⟨fun _ ↦ h, fun _ ↦ rfl⟩
  | cons u q =>
      have hle := le h.2.2
      have hpos := h.2.1
      simp only [List.cons_ne_nil, false_iff]
      omega

theorem bounds (h : Tiles pos len a b q) (hu : u ∈ q) :
    a ≤ pos u ∧ 0 < len u ∧ pos u + len u ≤ b := by
  induction q generalizing a with
  | nil => cases hu
  | cons v q ih =>
      obtain ⟨rfl, hlen, hq⟩ := h
      rcases List.mem_cons.mp hu with rfl | hu
      · exact ⟨Nat.le_refl _, hlen, le hq⟩
      · obtain ⟨h₁, h₂, h₃⟩ := ih hq hu
        exact ⟨by omega, h₂, h₃⟩

theorem add_sum (h : Tiles pos len a b q) : a + (q.map len).sum = b := by
  induction q generalizing a with
  | nil => exact h
  | cons u q ih =>
      have hq := ih h.2.2
      rw [List.map_cons, List.sum_cons]
      omega

/-- The item that starts where the interval does comes first. -/
theorem eq_cons_of_pos (h : Tiles pos len a b q) (hu : u ∈ q) (hpos : pos u = a) :
    ∃ q', q = u :: q' := by
  cases q with
  | nil => cases hu
  | cons v q =>
      rcases List.mem_cons.mp hu with rfl | hu
      · exact ⟨q, rfl⟩
      · have hb := bounds h.2.2 hu
        have hlen := h.2.1
        omega

theorem eq_of_pos (h : Tiles pos len a b q) (hu : u ∈ q) (hv : v ∈ q) (hpos : pos u = pos v) :
    u = v := by
  induction q generalizing a with
  | nil => cases hu
  | cons w q ih =>
      obtain ⟨hw, hlen, hq⟩ := h
      rcases List.mem_cons.mp hu with hu | hu
      · rcases List.mem_cons.mp hv with hv | hv
        · rw [hu, hv]
        · have hb := bounds hq hv
          rw [hu] at hpos
          omega
      · rcases List.mem_cons.mp hv with hv | hv
        · have hb := bounds hq hu
          rw [hv] at hpos
          omega
        · exact ih hq hu hv

theorem snoc (h : Tiles pos len a b q) (hpos : pos v = b) (hlen : 0 < len v) :
    Tiles pos len a (b + len v) (q ++ [v]) := by
  induction q generalizing a with
  | nil =>
      obtain rfl : a = b := h
      exact ⟨hpos, hlen, rfl⟩
  | cons u q ih => exact ⟨h.1, h.2.1, ih h.2.2⟩

theorem cover (h : Tiles pos len a b q) (ha : a ≤ x) (hb : x < b) :
    ∃ u ∈ q, pos u ≤ x ∧ x < pos u + len u := by
  induction q generalizing a with
  | nil =>
      obtain rfl : a = b := h
      omega
  | cons u q ih =>
      obtain ⟨rfl, -, hq⟩ := h
      by_cases hx : x < pos u + len u
      · exact ⟨u, List.mem_cons_self, ha, hx⟩
      · obtain ⟨v, hv, hin⟩ := ih hq (by omega)
        exact ⟨v, List.mem_cons_of_mem _ hv, hin⟩

theorem apart (h : Tiles pos len a b q) (hu : u ∈ q) (hv : v ∈ q) :
    u = v ∨ pos u + len u ≤ pos v ∨ pos v + len v ≤ pos u := by
  induction q generalizing a with
  | nil => cases hu
  | cons w q ih =>
      obtain ⟨rfl, -, hq⟩ := h
      rcases List.mem_cons.mp hu with rfl | huq
      · rcases List.mem_cons.mp hv with rfl | hvq
        · exact .inl rfl
        · exact .inr (.inl (bounds hq hvq).1)
      · rcases List.mem_cons.mp hv with rfl | hvq
        · exact .inr (.inr (bounds hq huq).1)
        · exact ih hq huq hvq

/-- What follows a tiling is a tiling of the rest. -/
theorem of_append {c : ℕ} (h : Tiles pos len a b (q ++ q')) (hq : Tiles pos len a c q) :
    Tiles pos len c b q' := by
  induction q generalizing a with
  | nil =>
      obtain rfl : a = c := hq
      exact h
  | cons u q ih => exact ih h.2.2 hq.2.2

theorem isChain (h : Tiles pos len a b q) : q.IsChain fun u v ↦ pos u + len u = pos v := by
  induction q generalizing a with
  | nil => exact .nil
  | cons u q ih =>
      obtain ⟨rfl, -, hq⟩ := h
      refine (ih hq).cons fun v hv ↦ ?_
      cases q with
      | nil => cases hv
      | cons w q =>
          obtain rfl : w = v := by simpa using hv
          exact hq.1.symm

theorem getLast (h : Tiles pos len a b q) : ∀ u ∈ q.getLast?, pos u + len u = b := by
  induction q generalizing a with
  | nil => simp
  | cons v q ih =>
      obtain ⟨rfl, -, hq⟩ := h
      intro u hu
      cases q with
      | nil =>
          obtain rfl : v = u := by simpa using hu
          exact hq
      | cons w q => exact ih hq u (by simpa using hu)

theorem end_lt_of_mem_dropLast (h : Tiles pos len a b q) (hu : u ∈ q.dropLast) :
    pos u + len u < b := by
  induction q generalizing a with
  | nil => cases hu
  | cons v q ih =>
      obtain ⟨rfl, -, hq⟩ := h
      cases q with
      | nil => cases hu
      | cons w q =>
          rw [List.dropLast_cons_of_ne_nil (List.cons_ne_nil w q)] at hu
          rcases List.mem_cons.mp hu with rfl | hu
          · have hb := bounds hq List.mem_cons_self
            omega
          · exact ih hq hu

/-- Dropping the items that end at or before `x` leaves a tiling from a point at or
before `x`, and every item left ends after `x`. -/
theorem dropWhile (h : Tiles pos len a b q) {p : τ → Bool}
    (hp : ∀ u ∈ q, p u = true ↔ pos u + len u ≤ x) (ha : a ≤ x) :
    (∃ a' ≤ x, Tiles pos len a' b (q.dropWhile p)) ∧
      ∀ u ∈ q.dropWhile p, x < pos u + len u := by
  induction q generalizing a with
  | nil => exact ⟨⟨a, ha, h⟩, by simp⟩
  | cons u q ih =>
      have hu := hp u List.mem_cons_self
      by_cases hpu : p u = true
      · rw [List.dropWhile_cons_of_pos hpu]
        obtain ⟨rfl, -, hq⟩ := h
        exact ih hq (fun v hv ↦ hp v (List.mem_cons_of_mem _ hv)) (hu.mp hpu)
      · rw [List.dropWhile_cons_of_neg hpu]
        refine ⟨⟨a, ha, h⟩, fun v hv ↦ ?_⟩
        have hlt := mt hu.mpr hpu
        rcases List.mem_cons.mp hv with rfl | hv
        · omega
        · obtain ⟨rfl, -, hq⟩ := h
          have hv := bounds hq hv
          omega

/-- The items that end at or before `x` stand in front, so dropping them takes out all
of them. -/
theorem dropWhile_eq_filter (h : Tiles pos len a b q) {p : τ → Bool}
    (hp : ∀ u ∈ q, p u = true ↔ pos u + len u ≤ x) :
    q.dropWhile p = q.filter fun u ↦ !p u := by
  induction q generalizing a with
  | nil => rfl
  | cons u q ih =>
      have hu := hp u List.mem_cons_self
      obtain ⟨rfl, -, hq⟩ := h
      by_cases hpu : p u = true
      · rw [List.dropWhile_cons_of_pos hpu, List.filter_cons_of_neg (by simp [hpu])]
        exact ih hq fun v hv ↦ hp v (List.mem_cons_of_mem _ hv)
      · rw [List.dropWhile_cons_of_neg hpu, eq_comm, List.filter_eq_self]
        have hlt := mt hu.mpr hpu
        intro v hv
        rcases List.mem_cons.mp hv with rfl | hmem
        · simpa using hpu
        · have hb := bounds hq hmem
          have hnot := mt (hp v hv).mp (by omega)
          simpa using hnot

theorem congr (h : Tiles pos len a b q)
    (hq : q'.map (fun u ↦ (pos u, len u)) = q.map fun u ↦ (pos u, len u)) :
    Tiles pos len a b q' := by
  induction q generalizing a q' with
  | nil =>
      obtain rfl : q' = [] := by simpa using hq
      exact h
  | cons u q ih =>
      cases q' with
      | nil => simp at hq
      | cons v q' =>
          simp only [List.map_cons, List.cons.injEq, Prod.mk.injEq] at hq
          obtain ⟨⟨hpos, hlen⟩, htail⟩ := hq
          exact ⟨hpos.trans h.1, hlen ▸ h.2.1, hlen ▸ ih h.2.2 htail⟩

end Tiles

end Tiling
