import Mathlib.Data.Finset.Card

/-!
# What a bounded list still holds

Lists that take new elements in at the back and drop old ones from the front. An element stays as
long as few enough different ones have come in behind it.
-/

namespace Reticulum

/-- `x` is in `l`, and what stands behind it is in `S`. -/
def Trailed {α : Type} (l : List α) (x : α) (S : Finset α) : Prop :=
  ∃ old young, l = old ++ x :: young ∧ ∀ y ∈ young, y ∈ S

namespace Trailed
variable {α : Type} {l : List α} {x y : α} {S : Finset α}

theorem mem (h : Trailed l x S) : x ∈ l := by
  obtain ⟨old, young, rfl, -⟩ := h
  simp

theorem last (l : List α) (x : α) (S : Finset α) : Trailed (l ++ [x]) x S :=
  ⟨l, [], rfl, by simp⟩

theorem snoc (h : Trailed l x S) (hy : y ∈ S) : Trailed (l ++ [y]) x S := by
  obtain ⟨old, young, rfl, hyoung⟩ := h
  refine ⟨old, young ++ [y], by simp, ?_⟩
  intro z hz
  rcases List.mem_append.mp hz with hz | hz
  · exact hyoung z hz
  · rw [List.mem_singleton.mp hz]
    exact hy

/-- The front may go, as long as more than `S` is left. -/
theorem drop (h : Trailed l x S) (hl : l.Nodup) {n : Nat} (hn : n + S.card < l.length) :
    Trailed (l.drop n) x S := by
  classical
  obtain ⟨old, young, rfl, hyoung⟩ := h
  have hnodup : young.Nodup := (List.nodup_cons.mp (List.nodup_append.mp hl).2.1).2
  have hcard : young.length ≤ S.card := by
    rw [← List.toFinset_card_of_nodup hnodup]
    exact Finset.card_le_card fun y hy => hyoung y (List.mem_toFinset.mp hy)
  rw [List.length_append, List.length_cons] at hn
  have hold : n ≤ old.length := by omega
  exact ⟨old.drop n, young, List.drop_append_of_le_length hold, hyoung⟩

end Trailed
end Reticulum
