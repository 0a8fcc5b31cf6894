import Mathlib.Algebra.BigOperators.Group.List.Lemmas
import Mathlib.Algebra.GroupWithZero.Nat
import Mathlib.Algebra.Order.BigOperators.Group.List
import Mathlib.Algebra.Order.Group.Nat
import Mathlib.Data.List.TakeWhile
import Mathlib.Tactic.Common

/-!
# Budgets over a sliding window

Entries of a log have a time and a cost. `Capped` bounds what the entries of any window of length
`W` cost together, wherever the window lies. A limiter keeps only the end of the log: as long as it
forgets no entry that is younger than `W` (`Remembers`), comparing the cost of what it keeps with
the cap is enough for `Capped`.
-/

namespace Reticulum
namespace Window
variable {ε : Type} {time cost : ε → Nat} {W C now now' : Nat} {log log' kept : List ε} {e : ε}

/-- What the entries of `log` with a time in `[a, a + W]` cost together. -/
def spent (time cost : ε → Nat) (W : Nat) (log : List ε) (a : Nat) : Nat :=
  ((log.filter fun e => decide (a ≤ time e ∧ time e ≤ a + W)).map cost).sum

/-- No window of length `W` costs more than `C`. -/
def Capped (time cost : ε → Nat) (W C : Nat) (log : List ε) : Prop :=
  ∀ a, spent time cost W log a ≤ C

/-- `kept` is the end of `log`, and what comes before it is older than `W` at time `now`. -/
def Remembers (time : ε → Nat) (W now : Nat) (log kept : List ε) : Prop :=
  ∃ gone, log = gone ++ kept ∧ ∀ e ∈ gone, time e + W < now

theorem spent_append (a : Nat) :
    spent time cost W (log ++ log') a = spent time cost W log a + spent time cost W log' a := by
  simp [spent]

theorem spent_le (a : Nat) : spent time cost W log a ≤ (log.map cost).sum := by
  have hsub : (log.filter fun e => decide (a ≤ time e ∧ time e ≤ a + W)).Sublist log :=
    List.filter_sublist
  exact (hsub.map cost).sum_le_sum fun _ _ => Nat.zero_le _

theorem spent_eq_zero {a : Nat} (h : ∀ e ∈ log, ¬ (a ≤ time e ∧ time e ≤ a + W)) :
    spent time cost W log a = 0 := by
  have hnil : (log.filter fun e => decide (a ≤ time e ∧ time e ≤ a + W)) = [] := by
    rw [List.filter_eq_nil_iff]
    intro e he
    rw [decide_eq_true_eq]
    exact h e he
  rw [spent, hnil, List.map_nil, List.sum_nil]

theorem spent_eq_sum {a : Nat} (h : ∀ e ∈ log, a ≤ time e ∧ time e ≤ a + W) :
    spent time cost W log a = (log.map cost).sum := by
  have hall : (log.filter fun e => decide (a ≤ time e ∧ time e ≤ a + W)) = log := by
    rw [List.filter_eq_self]
    intro e he
    rw [decide_eq_true_eq]
    exact h e he
  rw [spent, hall]

theorem capped_nil : Capped time cost W C ([] : List ε) := by
  intro a
  simp [spent]

theorem remembers_refl : Remembers time W now log log := ⟨[], by simp, by simp⟩

theorem Remembers.mono (h : Remembers time W now log kept) (hle : now ≤ now') :
    Remembers time W now' log kept := by
  obtain ⟨gone, hlog, hold⟩ := h
  refine ⟨gone, hlog, ?_⟩
  intro e he
  have hlt := hold e he
  omega

theorem Remembers.snoc (h : Remembers time W now log kept) :
    Remembers time W now (log ++ [e]) (kept ++ [e]) := by
  obtain ⟨gone, hlog, hold⟩ := h
  exact ⟨gone, by simp [hlog], hold⟩

/-- Dropping entries from the front that are older than `W` forgets nothing that counts. -/
theorem Remembers.dropWhile {p : ε → Bool} (h : Remembers time W now log kept)
    (hp : ∀ e, p e = true → time e + W < now) :
    Remembers time W now log (kept.dropWhile p) := by
  obtain ⟨gone, hlog, hold⟩ := h
  refine ⟨gone ++ kept.takeWhile p, ?_, ?_⟩
  · rw [List.append_assoc, List.takeWhile_append_dropWhile, hlog]
  · intro e he
    rcases List.mem_append.mp he with he | he
    · exact hold e he
    · exact hp e (List.mem_takeWhile_imp he)

/-- An entry may be added when what is kept leaves room for it: a window that reaches up to it
holds nothing that was forgotten. -/
theorem Capped.snoc (h : Capped time cost W C log) (hkept : Remembers time W (time e) log kept)
    (hroom : (kept.map cost).sum + cost e ≤ C) : Capped time cost W C (log ++ [e]) := by
  intro a
  rw [spent_append]
  by_cases hin : a ≤ time e ∧ time e ≤ a + W
  · obtain ⟨gone, hlog, hold⟩ := hkept
    have hgone : spent time cost W gone a = 0 := by
      apply spent_eq_zero
      intro e' he'
      have hlt := hold e' he'
      omega
    have hrest : spent time cost W kept a ≤ (kept.map cost).sum := spent_le a
    have hone : spent time cost W [e] a ≤ ([e].map cost).sum := spent_le a
    have hnew : spent time cost W [e] a ≤ cost e := by simpa using hone
    rw [hlog, spent_append]
    omega
  · have hnew : spent time cost W [e] a = 0 := spent_eq_zero (by simpa using hin)
    rw [hnew, Nat.add_zero]
    exact h a

end Window
end Reticulum
