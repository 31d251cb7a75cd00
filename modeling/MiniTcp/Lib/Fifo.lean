import Mathlib.Tactic.TypeStar
import MiniTcp.Lib.Run

/-!
# Queues along a run

What is taken from the front of a queue and what is added at its end, collected over the steps
of a run.  If every admitted step balances the queue, the whole run does: the elements leave in
the order in which they came, each of them once.
-/

namespace Fifo

variable {σ ε α : Type*}

/-- What the steps of a run give, one after another. -/
def collect (f : σ → ε → List α) (step : σ → ε → σ) : σ → List ε → List α
  | _, [] => []
  | s, e :: es => f s e ++ collect f step (step s e) es

@[simp] theorem collect_nil (f : σ → ε → List α) (step : σ → ε → σ) (s : σ) :
    collect f step s [] = [] := rfl

theorem collect_cons (f : σ → ε → List α) (step : σ → ε → σ) (s : σ) (e : ε) (es : List ε) :
    collect f step s (e :: es) = f s e ++ collect f step (step s e) es := rfl

/-- Taken and left over is what was there and what came. -/
theorem balance {ok : σ → ε → Prop} {step : σ → ε → σ} {queue : σ → List α}
    {taken added : σ → ε → List α}
    (hstep : ∀ s e, ok s e → taken s e ++ queue (step s e) = queue s ++ added s e) {s : σ}
    {es : List ε} (hes : Run.Along ok step s es) :
    collect taken step s es ++ queue (es.foldl step s) = queue s ++ collect added step s es := by
  induction es generalizing s with
  | nil => simp
  | cons e es ih =>
      have hrest := ih hes.2
      calc collect taken step s (e :: es) ++ queue ((e :: es).foldl step s)
          = taken s e ++ (collect taken step (step s e) es ++
              queue (es.foldl step (step s e))) := by
            rw [collect_cons, List.append_assoc, List.foldl_cons]
        _ = (taken s e ++ queue (step s e)) ++ collect added step (step s e) es := by
            rw [hrest, List.append_assoc]
        _ = queue s ++ collect added step s (e :: es) := by
            rw [hstep s e hes.1, List.append_assoc, collect_cons]

end Fifo
