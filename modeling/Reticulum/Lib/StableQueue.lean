import Mathlib.Order.Lattice
import Mathlib.Tactic.Common

/-!
# Queues served by key

The next element served is the first of those with the least key, so that elements with equal keys
leave in the order in which they stand. `Pops` takes several in a row; what is said about it holds
for queues of any length and wherever the serving stops.
-/

namespace Reticulum
namespace StableQueue
variable {α β κ : Type} [LinearOrder κ] (key : α → κ)

/-- The first element with the least key, and the others in their order. -/
def popMin : List α → Option (α × List α)
  | [] => none
  | a :: rest =>
    match popMin rest with
    | none => some (a, [])
    | some (m, rest') => if key m < key a then some (m, a :: rest') else some (a, rest)

/-- `picks` are served from `q` one after another, and `q'` is left. -/
inductive Pops : List α → List α → List α → Prop
  | done {q : List α} : Pops q [] q
  | pop {q rest picks q' : List α} {m : α} (h : popMin key q = some (m, rest))
    (h' : Pops rest picks q') : Pops q (m :: picks) q'

/-- `a` is served before `b` if both are in the queue: by key, and among equals by `lt`. -/
def Before (lt : α → α → Prop) (a b : α) : Prop := key a < key b ∨ key a = key b ∧ lt a b

variable {key} {q q' rest picks : List α} {m : α}

theorem popMin_eq_none : popMin key q = none ↔ q = [] := by
  cases q with
  | nil => simp [popMin]
  | cons a rest =>
    simp only [popMin, reduceCtorEq, iff_false]
    split
    · simp
    · split <;> simp

/-- The element served splits the queue: larger keys before it, none smaller behind it. -/
theorem popMin_eq_some (h : popMin key q = some (m, rest)) : ∃ l r, q = l ++ m :: r ∧
    rest = l ++ r ∧ (∀ a ∈ l, key m < key a) ∧ ∀ a ∈ r, key m ≤ key a := by
  induction q generalizing m rest with
  | nil => cases h
  | cons a q ih =>
    simp only [popMin] at h
    cases hq : popMin key q with
    | none =>
      rw [hq] at h
      cases h
      rw [popMin_eq_none.mp hq]
      exact ⟨[], [], rfl, rfl, by simp, by simp⟩
    | some mr =>
      obtain ⟨m', rest'⟩ := mr
      obtain ⟨l, r, rfl, rfl, hl, hr⟩ := ih hq
      rw [hq] at h
      simp only at h
      split at h
      · rename_i hlt
        cases h
        refine ⟨a :: l, r, rfl, rfl, ?_, hr⟩
        intro b hb
        rcases List.mem_cons.mp hb with rfl | hb
        · exact hlt
        · exact hl b hb
      · rename_i hle
        cases h
        have hle := not_lt.mp hle
        refine ⟨[], _, rfl, rfl, by simp, ?_⟩
        intro b hb
        rcases List.mem_append.mp hb with hb | hb
        · exact hle.trans (hl b hb).le
        · rcases List.mem_cons.mp hb with rfl | hb
          · exact hle
          · exact hle.trans (hr b hb)

theorem popMin_perm (h : popMin key q = some (m, rest)) : q.Perm (m :: rest) := by
  obtain ⟨l, r, rfl, rfl, -, -⟩ := popMin_eq_some h
  exact List.perm_middle

theorem popMin_le (h : popMin key q = some (m, rest)) : ∀ a ∈ rest, key m ≤ key a := by
  obtain ⟨l, r, -, rfl, hl, hr⟩ := popMin_eq_some h
  intro a ha
  rcases List.mem_append.mp ha with ha | ha
  · exact (hl a ha).le
  · exact hr a ha

theorem popMin_sublist (h : popMin key q = some (m, rest)) : rest.Sublist q := by
  obtain ⟨l, r, rfl, rfl, -, -⟩ := popMin_eq_some h
  exact (List.Sublist.refl l).append (List.sublist_cons_self m r)

/-- Serving looks at nothing but the keys. -/
theorem popMin_map (f : β → α) (q : List β) : popMin key (q.map f) =
    (popMin (key ∘ f) q).map fun p => (f p.1, p.2.map f) := by
  induction q with
  | nil => rfl
  | cons b q ih =>
    rw [List.map_cons, popMin, popMin, ih]
    cases popMin (key ∘ f) q with
    | none => rfl
    | some p =>
      simp only [Option.map_some, Function.comp_apply]
      split <;> rfl

theorem Pops.perm (h : Pops key q picks q') : q.Perm (picks ++ q') := by
  induction h with
  | done => exact .refl _
  | pop h _ ih => exact (popMin_perm h).trans (ih.cons _)

theorem Pops.sublist (h : Pops key q picks q') : q'.Sublist q := by
  induction h with
  | done => exact .refl _
  | pop h _ ih => exact ih.trans (popMin_sublist h)

/-- As long as a key of at most `k` is left, nothing with a larger one is served. -/
theorem Pops.countP_le (h : Pops key q picks q') {k : κ} (hleft : ∃ a ∈ q', key a ≤ k) :
    q.countP (fun a => decide (key a ≤ k)) =
      picks.length + q'.countP fun a => decide (key a ≤ k) := by
  induction h with
  | done => simp
  | pop hq next ih =>
    obtain ⟨a, ha, hle⟩ := hleft
    have hm := popMin_le hq a (next.sublist.subset ha)
    rw [(popMin_perm hq).countP_eq, List.length_cons, Nat.add_right_comm, ← ih ⟨a, ha, hle⟩]
    exact List.countP_cons_of_pos (decide_eq_true (hm.trans hle))

theorem Pops.of_map {f : β → α} {p : List α} {q₀ : List β} (h : Pops key (q₀.map f) picks p) :
    ∃ picks₀ p₀, Pops (key ∘ f) q₀ picks₀ p₀ ∧ picks₀.map f = picks ∧ p₀.map f = p := by
  generalize hq : q₀.map f = q at h
  induction h generalizing q₀ with
  | done => exact ⟨[], q₀, .done, rfl, hq⟩
  | pop h _ ih =>
    rw [← hq, popMin_map] at h
    obtain ⟨⟨m₀, rest₀⟩, hm₀, hmr⟩ := Option.map_eq_some_iff.mp h
    obtain ⟨rfl, rfl⟩ := Prod.mk.inj hmr
    obtain ⟨picks₀, p₀, hpops, rfl, rfl⟩ := ih rfl
    exact ⟨m₀ :: picks₀, p₀, .pop hm₀ hpops, rfl, rfl⟩

/-- Whatever of the queue has not been served with or before an element comes after it. -/
theorem Pops.before {lt : α → α → Prop} (h : Pops key q picks q') (hq : q.Pairwise lt) {k : Nat}
    {e : α} (he : picks[k]? = some e) {w : α} (hw : w ∈ q) (hlate : w ∉ picks.take (k + 1)) :
    Before key lt e w := by
  induction h generalizing k with
  | done => cases he
  | @pop q rest picks q' m h _ ih =>
    rw [List.take_succ_cons, List.mem_cons, not_or] at hlate
    obtain ⟨hne, hlate⟩ := hlate
    obtain ⟨l, r, rfl, rfl, hl, hr⟩ := popMin_eq_some h
    cases k with
    | zero =>
      cases he
      rcases List.mem_append.mp hw with hw | hw
      · exact .inl (hl w hw)
      · have hw := (List.mem_cons.mp hw).resolve_left hne
        rcases (hr w hw).lt_or_eq with hlt | heq
        · exact .inl hlt
        · exact .inr ⟨heq, List.rel_of_pairwise_cons (List.pairwise_append.mp hq).2.1 hw⟩
    | succ k =>
      have hw' : w ∈ l ++ r := by
        rcases List.mem_append.mp hw with hw | hw
        · exact List.mem_append_left r hw
        · exact List.mem_append_right l ((List.mem_cons.mp hw).resolve_left hne)
      exact ih (hq.sublist (popMin_sublist h)) he hw' hlate

end StableQueue
end Reticulum
