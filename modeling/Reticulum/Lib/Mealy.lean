import Mathlib.Tactic.Common

/-!
# Machines with output

A machine reads letters one by one, changes its state, and puts out a few things for each letter.
How its input is cut into pieces does not matter.
-/

namespace Reticulum
namespace Mealy
variable {σ α β : Type} (step : σ → α → σ × List β)

/-- The state after a word, and what was put out for it. -/
def run : σ → List α → σ × List β
  | s, [] => (s, [])
  | s, a :: rest => ((run (step s a).1 rest).1, (step s a).2 ++ (run (step s a).1 rest).2)

/-- Words read one after another. -/
def runAll : σ → List (List α) → σ × List β
  | s, [] => (s, [])
  | s, w :: rest => ((runAll (run step s w).1 rest).1,
      (run step s w).2 ++ (runAll (run step s w).1 rest).2)

variable {step}

theorem run_cons {s s' s'' : σ} {a : α} {w : List α} {out out' : List β}
    (h : step s a = (s', out)) (h' : run step s' w = (s'', out')) :
    run step s (a :: w) = (s'', out ++ out') := by
  rw [run, h, h']

theorem run_append (s : σ) (v w : List α) : run step s (v ++ w) =
    ((run step (run step s v).1 w).1, (run step s v).2 ++ (run step (run step s v).1 w).2) := by
  induction v generalizing s with
  | nil => rfl
  | cons a v ih =>
    rw [List.cons_append, run, ih, run, List.append_assoc]

theorem runAll_eq (s : σ) (ws : List (List α)) : runAll step s ws = run step s ws.flatten := by
  induction ws generalizing s with
  | nil => rfl
  | cons w ws ih => rw [runAll, ih, List.flatten_cons, run_append]

/-- A property of the states that every letter keeps. -/
theorem run_inv {I : σ → Prop} (hstep : ∀ s a, I s → I (step s a).1) {s : σ} (h : I s)
    (w : List α) : I (run step s w).1 := by
  induction w generalizing s with
  | nil => exact h
  | cons a w ih => exact ih (hstep s a h)

/-- Words that each lead from states with `I` to states with `I`, whatever stands around them. -/
theorem run_flatMap {γ : Type} {I : σ → Prop} {word : γ → List α} {out : γ → List β} {l : List γ}
    (hword : ∀ x ∈ l, ∀ s, I s → I (run step s (word x)).1 ∧ (run step s (word x)).2 = out x)
    {s : σ} (h : I s) :
    I (run step s (l.flatMap word)).1 ∧ (run step s (l.flatMap word)).2 = l.flatMap out := by
  induction l generalizing s with
  | nil => exact ⟨h, rfl⟩
  | cons x l ih =>
    obtain ⟨hI, hout⟩ := hword x (List.mem_cons_self ..) s h
    obtain ⟨hI', hout'⟩ := ih (fun y hy => hword y (List.mem_cons_of_mem x hy)) hI
    rw [List.flatMap_cons, run_append]
    refine ⟨hI', ?_⟩
    show _ ++ _ = _
    rw [hout, hout', List.flatMap_cons]

end Mealy
end Reticulum
