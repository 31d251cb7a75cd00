import Mathlib.Algebra.Group.Defs
import Mathlib.Logic.Function.Iterate

/-!
# Runs and their invariants

Two ways to take steps one after another.  `Reaches` follows a step function on
events, where every event has to meet a condition in the state it meets.  `Path`
follows a relation whose steps carry a label, and adds the labels up; it is used
to cut one event into the actions it consists of.  For both, what one step
preserves holds along the whole run.  `Along` fixes the list of events, so that two
runs over corresponding lists can be compared; `Ever` says that some event of the list
meets a condition when it comes.  `Loops` is a `while` loop with the
number of its rounds.
-/

namespace Run

variable {σ ε ω : Type*}

/-- The states reached from an initial one by events that meet `ok`. -/
inductive Reaches (init : σ → Prop) (ok : σ → ε → Prop) (step : σ → ε → σ) : σ → Prop
  | start {s : σ} (h : init s) : Reaches init ok step s
  | tail {s : σ} (e : ε) (hs : Reaches init ok step s) (he : ok s e) :
      Reaches init ok step (step s e)

namespace Reaches

variable {init : σ → Prop} {ok : σ → ε → Prop} {step : σ → ε → σ} {s : σ}

/-- What holds at the start and survives every admitted step holds throughout. -/
theorem invariant {P : σ → Prop} (hinit : ∀ s, init s → P s)
    (hstep : ∀ s e, Reaches init ok step s → ok s e → P s → P (step s e))
    (h : Reaches init ok step s) : P s := by
  induction h with
  | start h => exact hinit _ h
  | tail e hs he ih => exact hstep _ e hs he ih

theorem mono {ok' : σ → ε → Prop} (hok : ∀ s e, ok s e → ok' s e)
    (h : Reaches init ok step s) : Reaches init ok' step s := by
  induction h with
  | start h => exact .start h
  | tail e _ he ih => exact .tail e ih (hok _ e he)

end Reaches

/-- Every event of the list meets `ok` in the state that meets it. -/
def Along (ok : σ → ε → Prop) (step : σ → ε → σ) : σ → List ε → Prop
  | _, [] => True
  | s, e :: es => ok s e ∧ Along ok step (step s e) es

/-- Some event of the list meets `P` when it comes. -/
def Ever (P : σ → ε → Prop) (step : σ → ε → σ) : σ → List ε → Prop
  | _, [] => False
  | s, e :: es => P s e ∨ Ever P step (step s e) es

theorem Along.of_forall {ok : σ → ε → Prop} (step : σ → ε → σ) (h : ∀ s e, ok s e) (s : σ)
    (es : List ε) : Along ok step s es := by
  induction es generalizing s with
  | nil => trivial
  | cons e es ih => exact ⟨h s e, ih _⟩

/-- What every admitted step of the list preserves holds at its end. -/
theorem Along.invariant {ok : σ → ε → Prop} {step : σ → ε → σ} {P : σ → Prop} {es : List ε} {s : σ}
    (hes : Along ok step s es) (hstep : ∀ s, ∀ e ∈ es, ok s e → P s → P (step s e)) (h : P s) :
    P (es.foldl step s) := by
  induction es generalizing s with
  | nil => exact h
  | cons e es ih =>
      refine ih hes.2 ?_ (hstep s e List.mem_cons_self hes.1 h)
      intro s' e' he'
      exact hstep s' e' (List.mem_cons_of_mem e he')

/-- Two runs over corresponding events stay related when every step keeps them so. -/
theorem Along.lockstep {σ' ε' : Type*} {ok : σ → ε → Prop} {step : σ → ε → σ}
    {ok' : σ' → ε' → Prop} {step' : σ' → ε' → σ'} {f : ε → ε'} {R : σ → σ' → Prop}
    (hstep : ∀ s s' e, ok s e → ok' s' (f e) → R s s' → R (step s e) (step' s' (f e)))
    {es : List ε} {s : σ} {s' : σ'} (hes : Along ok step s es)
    (hes' : Along ok' step' s' (es.map f)) (h : R s s') :
    R (es.foldl step s) ((es.map f).foldl step' s') := by
  induction es generalizing s s' with
  | nil => exact h
  | cons e es ih => exact ih hes.2 hes'.2 (hstep s s' e hes.1 hes'.1 h)

/-- A run whose steps all lower a measure is not longer than the measure it starts with. -/
theorem length_le_of_decreasing {μ : σ → ℕ} {f : ℕ → σ} {n : ℕ}
    (h : ∀ i < n, μ (f (i + 1)) < μ (f i)) : n + μ (f n) ≤ μ (f 0) := by
  induction n with
  | zero => omega
  | succ n ih =>
      have hn := h n (Nat.lt_succ_self n)
      have hle := ih fun i hi ↦ h i (Nat.lt_succ_of_lt hi)
      omega

/-- Rounds that lower a measure as long as the goal is not reached lead to the goal. -/
theorem exists_of_decreasing {S G : σ → Prop} {μ : σ → ℕ}
    (h : ∀ s, S s → ¬ G s → ∃ s', S s' ∧ (G s' ∨ μ s' < μ s)) {s : σ} (hs : S s) :
    ∃ s', S s' ∧ G s' := by
  induction hn : μ s using Nat.strongRecOn generalizing s with
  | ind n ih =>
      by_cases hgoal : G s
      · exact ⟨s, hs, hgoal⟩
      · obtain ⟨s', hs', hnext | hlt⟩ := h s hs hgoal
        · exact ⟨s', hs', hnext⟩
        · exact ih _ (hn ▸ hlt) hs' rfl

/-- A list of labelled steps, the labels added up from left to right. -/
inductive Path [AddMonoid ω] (R : σ → ω → σ → Prop) : σ → ω → σ → Prop
  | nil (s : σ) : Path R s 0 s
  | cons {s t u : σ} {a b : ω} (hst : R s a t) (htu : Path R t b u) : Path R s (a + b) u

namespace Path

variable [AddMonoid ω] {R : σ → ω → σ → Prop} {s t u : σ} {a b w : ω}

theorem single (h : R s a t) : Path R s a t := by
  simpa using Path.cons h (Path.nil t)

theorem trans (h₁ : Path R s a t) (h₂ : Path R t b u) : Path R s (a + b) u := by
  induction h₁ with
  | nil s => simpa using h₂
  | cons hst _ ih =>
      rw [add_assoc]
      exact .cons hst (ih h₂)

theorem append (h₁ : Path R s a t) (h₂ : Path R t b u) (hw : w = a + b) : Path R s w u :=
  hw ▸ h₁.trans h₂

theorem invariant {P : σ → ω → Prop}
    (hstep : ∀ s t w a, P s w → R s a t → P t (w + a))
    (h : Path R s b t) (hs : P s w) : P t (w + b) := by
  induction h generalizing w with
  | nil s => simpa using hs
  | cons hst _ ih =>
      rw [← add_assoc]
      exact ih (hstep _ _ _ _ hs hst)

end Path

/-- A `while` loop that goes `n` times round from `s` and stops in `t`. -/
inductive Loops (go : σ → Prop) (body : σ → σ) : ℕ → σ → σ → Prop
  | stop {s : σ} (h : ¬ go s) : Loops go body 0 s s
  | round {n : ℕ} {s t : σ} (h : go s) (hrest : Loops go body n (body s) t) :
      Loops go body (n + 1) s t

/-- If the condition fails after `n` rounds made without asking for it, the loop stops
within `n` rounds. -/
theorem Loops.exists_of_iterate {go : σ → Prop} {body : σ → σ} {n : ℕ} {s : σ}
    (h : ¬ go (body^[n] s)) : ∃ m ≤ n, ∃ t, Loops go body m s t := by
  induction n generalizing s with
  | zero => exact ⟨0, Nat.le_refl 0, s, .stop h⟩
  | succ n ih =>
      by_cases hgo : go s
      · obtain ⟨m, hm, t, hloops⟩ := ih h
        exact ⟨m + 1, Nat.succ_le_succ hm, t, .round hgo hloops⟩
      · exact ⟨0, Nat.zero_le _, s, .stop hgo⟩

end Run
