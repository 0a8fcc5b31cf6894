import Mathlib.Algebra.BigOperators.Group.Finset.Basic
import Mathlib.Algebra.GroupWithZero.Nat
import Mathlib.Algebra.Order.BigOperators.Group.Finset
import Mathlib.Data.Set.Insert
import Reticulum.Lib.Run

/-!
# Networks of nodes on shared media

A medium keeps all that was ever sent on it, and a node may hear any of it, at any time, any number
of times or never. A run of a network is a run of each of its nodes (`Net.run_calls`), and what is
counted call by call may be counted node by node (`Net.sum_calls`).
-/

namespace Reticulum

/-- The state `σ` of every node in `ν`, and the words `ω` on every medium in `μ`. -/
structure Net (ν μ σ ω : Type) where
  node : ν → σ
  air : μ → Set ω

namespace Net
variable {ν μ σ ω ι α : Type}

inductive Act (ν μ ω α : Type) where
  | inject (m : μ) (w : ω)
  | call (n : ν) (a : α)

/-- How a node behaves, which word of which interface a call hears, which words it sends, and
the medium each interface of a node is on. -/
structure Links (ν μ σ ω ι α : Type) where
  step : σ → α → σ → Prop
  hears : α → Option (ι × ω)
  sends : σ → List (ι × ω)
  medium : ν → ι → μ

variable [DecidableEq ν] {L : Links ν μ σ ω ι α} {net net' : Net ν μ σ ω}

def inject (net : Net ν μ σ ω) (m : μ) (w : ω) : Net ν μ σ ω :=
  { net with air := fun m' => net.air m' ∪ {w' | m' = m ∧ w' = w} }

/-- The network once the node `n` is in the state `s`, and what it has sent is on the air. -/
def after (L : Links ν μ σ ω ι α) (net : Net ν μ σ ω) (n : ν) (s : σ) : Net ν μ σ ω where
  node := Function.update net.node n s
  air := fun m => net.air m ∪ {w | ∃ i, L.medium n i = m ∧ (i, w) ∈ L.sends s}

inductive Step (L : Links ν μ σ ω ι α) (net : Net ν μ σ ω) : Act ν μ ω α → Net ν μ σ ω → Prop
  | inject (m : μ) (w : ω) : Step L net (.inject m w) (net.inject m w)
  | call {n : ν} {a : α} {s : σ}
    (heard : ∀ i w, L.hears a = some (i, w) → w ∈ net.air (L.medium n i))
    (h : L.step (net.node n) a s) : Step L net (.call n a) (net.after L n s)

omit [DecidableEq ν] in
theorem mem_air_inject (m : μ) (w : ω) : w ∈ (net.inject m w).air m := .inr ⟨rfl, rfl⟩

theorem mem_air_after {n : ν} {s : σ} {i : ι} {w : ω} (h : (i, w) ∈ L.sends s) :
    w ∈ (net.after L n s).air (L.medium n i) := .inr ⟨i, rfl, h⟩

/-- The call a step of the network is for the node `n`. -/
def call? (n : ν) (r : Rec (Net ν μ σ ω) (Act ν μ ω α)) : Option (Rec σ α) :=
  match r.act with
  | .inject _ _ => none
  | .call n' a => if n' = n then some ⟨r.pre.node n, a, r.post.node n⟩ else none

def calls (n : ν) (rs : List (Rec (Net ν μ σ ω) (Act ν μ ω α))) : List (Rec σ α) :=
  rs.filterMap (call? n)

variable {rs : List (Rec (Net ν μ σ ω) (Act ν μ ω α))}

theorem run_calls (n : ν) (h : Run (Step L) net rs net') :
    Run L.step (net.node n) (calls n rs) (net'.node n) := by
  induction h with
  | nil => exact .nil
  | @snoc rs net₁ net₂ a _ hstep ih =>
    rw [calls, List.filterMap_append]
    cases hstep with
    | inject m w =>
      rw [List.filterMap_cons, call?, List.filterMap_nil, List.append_nil]
      exact ih
    | @call n' a s _ h =>
      by_cases hn : n' = n
      · subst hn
        have hcall : call? n' ⟨net₁, .call n' a, net₁.after L n' s⟩ =
            some ⟨net₁.node n', a, s⟩ := by
          simp [call?, after]
        have hnode : (net₁.after L n' s).node n' = s := Function.update_self ..
        rw [List.filterMap_cons, hcall, List.filterMap_nil, hnode]
        exact ih.snoc h
      · have hcall : call? n ⟨net₁, .call n' a, net₁.after L n' s⟩ = none := by
          simp [call?, hn]
        have hnode : (net₁.after L n' s).node n = net₁.node n :=
          Function.update_of_ne (Ne.symm hn) ..
        rw [List.filterMap_cons, hcall, List.filterMap_nil, List.append_nil, hnode]
        exact ih

/-- What a step of the network counts for, when a call counts for `f`. -/
def weight (f : Rec σ α → Nat) (r : Rec (Net ν μ σ ω) (Act ν μ ω α)) : Nat :=
  match r.act with
  | .inject _ _ => 0
  | .call n a => f ⟨r.pre.node n, a, r.post.node n⟩

theorem sum_calls [Fintype ν] (f : Rec σ α → Nat) :
    (rs.map (weight f)).sum = ∑ n, ((calls n rs).map f).sum := by
  induction rs with
  | nil => simp [calls]
  | cons r rs ih =>
    have hone : ∀ n, ((calls n (r :: rs)).map f).sum =
        ((call? n r).map f).getD 0 + ((calls n rs).map f).sum := by
      intro n
      rw [calls, List.filterMap_cons]
      cases call? n r with
      | none => simp [calls]
      | some r' => simp [calls]
    have hweight : weight f r = ∑ n, ((call? n r).map f).getD 0 := by
      rw [weight]
      split
      · rename_i m w hact
        simp [call?, hact]
      · rename_i n a hact
        rw [Finset.sum_eq_single n]
        · simp [call?, hact]
        · intro n' _ hne
          simp [call?, hact, Ne.symm hne]
        · intro hn
          exact absurd (Finset.mem_univ n) hn
    rw [List.map_cons, List.sum_cons, ih, hweight, ← Finset.sum_add_distrib]
    exact Finset.sum_congr rfl fun n _ => (hone n).symm

/-- What no node does more than once is done at most as often as there are nodes. -/
theorem sum_le_card [Fintype ν] {f : Rec σ α → Nat}
    (h : ∀ n, ((calls n rs).map f).sum ≤ 1) : (rs.map (weight f)).sum ≤ Fintype.card ν := by
  rw [sum_calls, Fintype.card, Finset.card_eq_sum_ones]
  exact Finset.sum_le_sum fun n _ => h n

/-- What holds of the nodes and of the words on the air at first, is not lost as the run goes on,
and is kept by every call that hears such words, holds throughout. -/
theorem inv_of_calls {N : List (Rec (Net ν μ σ ω) (Act ν μ ω α)) → ν → σ → Prop}
    {A : List (Rec (Net ν μ σ ω) (Act ν μ ω α)) → μ → ω → Prop} (hrun : Run (Step L) net rs net')
    (hnode : ∀ n, N [] n (net.node n)) (hair : ∀ m, ∀ w ∈ net.air m, A [] m w)
    (hlater : ∀ rs r, (∀ n s, N rs n s → N (rs ++ [r]) n s) ∧
      ∀ m w, A rs m w → A (rs ++ [r]) m w)
    (hinject : ∀ rs r m w, r.act = .inject m w → A (rs ++ [r]) m w)
    (hcall : ∀ rs r n a, r.act = .call n a → L.step (r.pre.node n) a (r.post.node n) →
      N rs n (r.pre.node n) → (∀ i w, L.hears a = some (i, w) → A rs (L.medium n i) w) →
      N (rs ++ [r]) n (r.post.node n) ∧
        ∀ i w, (i, w) ∈ L.sends (r.post.node n) → A (rs ++ [r]) (L.medium n i) w) :
    (∀ n, N rs n (net'.node n)) ∧ ∀ m, ∀ w ∈ net'.air m, A rs m w := by
  induction hrun with
  | nil => exact ⟨hnode, hair⟩
  | @snoc rs net₁ net₂ a _ hstep ih =>
    obtain ⟨hN, hA⟩ := ih
    cases hstep with
    | inject m w =>
      refine ⟨fun n => (hlater _ _).1 n _ (hN n), ?_⟩
      rintro m' w' (hw | ⟨rfl, rfl⟩)
      · exact (hlater _ _).2 m' w' (hA m' w' hw)
      · exact hinject _ _ m' w' rfl
    | @call n a s heard h =>
      have hself : (net₁.after L n s).node n = s := Function.update_self ..
      have hone := hcall rs ⟨net₁, .call n a, net₁.after L n s⟩ n a rfl (by rw [hself]; exact h)
        (hN n) fun i w hw => hA _ w (heard i w hw)
      constructor
      · intro n'
        by_cases hn : n' = n
        · subst hn
          exact hone.1
        · have hother : (net₁.after L n s).node n' = net₁.node n' := Function.update_of_ne hn ..
          rw [hother]
          exact (hlater _ _).1 n' _ (hN n')
      · rintro m w (hw | ⟨i, rfl, hsent⟩)
        · exact (hlater _ _).2 m w (hA m w hw)
        · exact hone.2 i w (hself.symm ▸ hsent)

end Net
end Reticulum
