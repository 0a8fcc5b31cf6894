import Mathlib.Algebra.GroupWithZero.Nat
import Mathlib.Data.Finset.Card
import Mathlib.Tactic.Common

/-!
# Runs of labelled transition systems

A run records its steps, so that a property may speak of its past. `Run.inv` and `Run.holds_until`
follow a predicate forwards; `Run.since` finds the step that last established one; `Run.matching`
pairs every step that uses up a ticket with the step that issued it.
-/

namespace Reticulum

/-- A step of a transition system: the state before, the action, the state after. -/
structure Rec (σ α : Type) where
  pre : σ
  act : α
  post : σ

/-- `Run R s₀ rs s`: the steps `rs`, in order, lead from `s₀` to `s`. -/
inductive Run {σ α : Type} (R : σ → α → σ → Prop) (s₀ : σ) : List (Rec σ α) → σ → Prop
  | nil : Run R s₀ [] s₀
  | snoc {rs : List (Rec σ α)} {s s' : σ} {a : α} :
    Run R s₀ rs s → R s a s' → Run R s₀ (rs ++ [⟨s, a, s'⟩]) s'

namespace Run
variable {σ α : Type} {R : σ → α → σ → Prop} {s₀ s s' : σ} {rs rs' : List (Rec σ α)}

theorem single {a : α} (h : R s a s') : Run R s [⟨s, a, s'⟩] s' := snoc nil h

theorem append (h : Run R s₀ rs s) (h' : Run R s rs' s') : Run R s₀ (rs ++ rs') s' := by
  induction h' with
  | nil => simpa using h
  | snoc _ hstep ih => rw [← List.append_assoc]; exact snoc ih hstep

theorem cons {a : α} (h : R s₀ a s) (h' : Run R s rs s') : Run R s₀ (⟨s₀, a, s⟩ :: rs) s' :=
  append (single h) h'

theorem split (h : Run R s₀ (rs ++ rs') s') : ∃ s, Run R s₀ rs s ∧ Run R s rs' s' := by
  induction rs' using List.reverseRecOn generalizing s' with
  | nil => exact ⟨s', by simpa using h, nil⟩
  | append_singleton rs' r ih =>
    rw [← List.append_assoc] at h
    generalize hq : rs ++ rs' ++ [r] = q at h
    cases h with
    | nil => simp at hq
    | snoc h hstep =>
      obtain ⟨rfl, hr⟩ := List.append_inj' hq rfl
      obtain ⟨s, h₁, h₂⟩ := ih h
      obtain rfl := (List.cons.inj hr).1
      exact ⟨s, h₁, snoc h₂ hstep⟩

theorem nil_inv (h : Run R s₀ [] s) : s = s₀ := by
  generalize hq : [] = q at h
  cases h with
  | nil => rfl
  | snoc => simp at hq

theorem cons_inv {r : Rec σ α} (h : Run R s₀ (r :: rs) s) :
    r.pre = s₀ ∧ R r.pre r.act r.post ∧ Run R r.post rs s := by
  induction rs using List.reverseRecOn generalizing s with
  | nil =>
    generalize hq : [r] = q at h
    cases h with
    | nil => simp at hq
    | @snoc rs s s' a h hstep =>
      cases rs with
      | nil =>
        obtain rfl := (List.cons.inj hq).1
        exact ⟨h.nil_inv, hstep, nil⟩
      | cons => simp at hq
  | append_singleton rs r' ih =>
    generalize hq : r :: (rs ++ [r']) = q at h
    cases h with
    | nil => simp at hq
    | snoc h hstep =>
      obtain ⟨rfl, hr⟩ := List.append_inj' (hq.symm.trans (List.cons_append ..).symm) rfl
      obtain rfl := (List.cons.inj hr).1
      obtain ⟨hpre, hr, h⟩ := ih h
      exact ⟨hpre, hr, snoc h hstep⟩

/-- Any step of a run is a step of the system, with a run before and a run after it. -/
theorem split_at {r : Rec σ α} (h : Run R s₀ (rs ++ r :: rs') s') :
    Run R s₀ rs r.pre ∧ R r.pre r.act r.post ∧ Run R r.post rs' s' := by
  obtain ⟨s, h₁, h₂⟩ := h.split
  obtain ⟨hpre, hr, h₃⟩ := h₂.cons_inv
  exact ⟨hpre ▸ h₁, hr, h₃⟩

theorem step_of_mem {r : Rec σ α} (h : Run R s₀ rs s) (hr : r ∈ rs) : R r.pre r.act r.post := by
  obtain ⟨l₁, l₂, rfl⟩ := List.append_of_mem hr
  exact h.split_at.2.1

/-- An invariant of the steps that satisfy `C` holds at the end of a run of such steps. -/
theorem inv_of {I : σ → Prop} {C : Rec σ α → Prop} (h : Run R s₀ rs s) (h₀ : I s₀)
    (hC : ∀ r ∈ rs, C r) (hstep : ∀ s a s', I s → R s a s' → C ⟨s, a, s'⟩ → I s') : I s := by
  induction h with
  | nil => exact h₀
  | snoc _ hs ih =>
    exact hstep _ _ _ (ih fun r hr => hC r (List.mem_append_left _ hr)) hs (hC _ (by simp))

theorem inv {I : σ → Prop} (h : Run R s₀ rs s) (h₀ : I s₀)
    (hstep : ∀ s a s', I s → R s a s' → I s') : I s :=
  h.inv_of h₀ (fun _ _ => trivial) fun s a s' hi hs (_ : True) => hstep s a s' hi hs

/-- What each step that satisfies `C` adds to `f` adds up over a run of such steps. -/
theorem total {f : σ → Nat} {w : Rec σ α → Nat} {C : Rec σ α → Prop} (h : Run R s₀ rs s)
    (hC : ∀ r ∈ rs, C r)
    (hstep : ∀ s a s', R s a s' → C ⟨s, a, s'⟩ → f s' = f s + w ⟨s, a, s'⟩) :
    f s = f s₀ + (rs.map w).sum := by
  induction h with
  | nil => rw [List.map_nil, List.sum_nil, Nat.add_zero]
  | snoc _ hs ih =>
    have hone := hstep _ _ _ hs (hC _ (by simp))
    rw [hone, ih fun r hr => hC r (List.mem_append_left _ hr), List.map_append, List.sum_append,
      List.map_singleton, List.sum_singleton, Nat.add_assoc]

/-- What every step keeps, and what each step that starts with it satisfies. -/
theorem always {P : σ → Prop} {Q : Rec σ α → Prop} (h : Run R s₀ rs s) (h₀ : P s₀)
    (hstep : ∀ r, R r.pre r.act r.post → P r.pre → P r.post ∧ Q r) : ∀ r ∈ rs, Q r := by
  intro r hr
  obtain ⟨before, after, rfl⟩ := List.append_of_mem hr
  obtain ⟨hbefore, hs, -⟩ := h.split_at
  have hpre : P r.pre := hbefore.inv h₀ fun s a s' hp hs => (hstep ⟨s, a, s'⟩ hs hp).1
  exact (hstep r hs hpre).2

/-- Calls that can be made in every state can be made one after another. -/
theorem exists_of_calls {κ : Type} {call : α → κ} {I : σ → Prop} (h₀ : I s₀)
    (hstep : ∀ s k, I s → ∃ a s', call a = k ∧ R s a s' ∧ I s') (ks : List κ) :
    ∃ rs s, Run R s₀ rs s ∧ rs.map (fun r => call r.act) = ks := by
  induction ks generalizing s₀ with
  | nil => exact ⟨[], s₀, nil, rfl⟩
  | cons k ks ih =>
    obtain ⟨a, s₁, rfl, hs, h₁⟩ := hstep s₀ k h₀
    obtain ⟨rs, s, hrun, hks⟩ := ih h₁
    exact ⟨_, s, cons hs hrun, congrArg (call a :: ·) hks⟩

/-- A property holds until some step `Q` ends it. -/
theorem holds_until {P : σ → Prop} {Q : Rec σ α → Prop} (h : Run R s₀ rs s) (h₀ : P s₀)
    (hstep : ∀ r ∈ rs, R r.pre r.act r.post → P r.pre → P r.post ∨ Q r) :
    P s ∨ ∃ r ∈ rs, Q r := by
  induction h with
  | nil => exact .inl h₀
  | @snoc rs s s' a _ hs ih =>
    rcases ih fun r hr => hstep r (List.mem_append_left _ hr) with hp | ⟨r, hr, hq⟩
    · have hlast := List.mem_append_right rs (List.mem_singleton_self (⟨s, a, s'⟩ : Rec σ α))
      exact (hstep _ hlast hs hp).imp id fun hq => ⟨_, hlast, hq⟩
    · exact .inr ⟨r, List.mem_append_left _ hr, hq⟩

/-- What holds now and did not hold at first was established by some step `Q`; it held ever since,
and no later step failed `N`. -/
theorem since {P : σ → Prop} {Q N : Rec σ α → Prop} (h : Run R s₀ rs s) (h₀ : ¬ P s₀)
    (hstep : ∀ r, R r.pre r.act r.post → P r.post → Q r ∨ (P r.pre ∧ N r)) (hP : P s) :
    ∃ before r after, rs = before ++ r :: after ∧ Q r ∧ ∀ r' ∈ after, P r'.pre ∧ N r' := by
  induction h with
  | nil => exact absurd hP h₀
  | @snoc rs s s' a hrun hs ih =>
    rcases hstep ⟨s, a, s'⟩ hs hP with hq | ⟨hp, hn⟩
    · exact ⟨rs, _, [], rfl, hq, by simp⟩
    · obtain ⟨before, r, after, rfl, hq, hall⟩ := ih hp
      refine ⟨before, r, after ++ [⟨s, a, s'⟩], by simp, hq, fun r' hr' => ?_⟩
      rcases List.mem_append.mp hr' with hr' | hr'
      · exact hall r' hr'
      · rw [List.mem_singleton.mp hr']; exact ⟨hp, hn⟩

/-- Every step of `rs` stands in the relation `P` to the steps before it. -/
def Throughout (P : List (Rec σ α) → Rec σ α → Prop) (rs : List (Rec σ α)) : Prop :=
  ∀ before r after, rs = before ++ r :: after → P before r

theorem throughout_nil {P : List (Rec σ α) → Rec σ α → Prop} : Throughout P [] := by
  intro before r after h
  simp at h

theorem throughout_snoc {P : List (Rec σ α) → Rec σ α → Prop} {r : Rec σ α} :
    Throughout P (rs ++ [r]) ↔ Throughout P rs ∧ P rs r := by
  constructor
  · intro h
    refine ⟨fun before r' after hrs => h before r' (after ++ [r]) ?_, h rs r [] rfl⟩
    rw [hrs, List.append_assoc, List.cons_append]
  · rintro ⟨h, hr⟩ before r' after hrs
    rcases List.eq_nil_or_concat after with rfl | ⟨after, r'', rfl⟩
    · obtain ⟨rfl, hr'⟩ := List.append_inj' hrs rfl
      cases hr'
      exact hr
    · rw [List.concat_eq_append, ← List.cons_append, ← List.append_assoc] at hrs
      exact h before r' after (List.append_inj' hrs rfl).1

/-! ### One-shot tickets -/

theorem getElem?_snoc {r r' : Rec σ α} {i : Nat} :
    (rs ++ [r])[i]? = some r' ↔ rs[i]? = some r' ∨ i = rs.length ∧ r = r' := by
  rcases Nat.lt_trichotomy i rs.length with h | rfl | h
  · rw [List.getElem?_append_left h]
    simp [h.ne]
  · simp
  · rw [List.getElem?_eq_none (by simp; omega), List.getElem?_eq_none (by omega)]
    simp [h.ne']

theorem lt_of_getElem? {r : Rec σ α} {i : Nat} (h : rs[i]? = some r) : i < rs.length :=
  (List.getElem?_eq_some_iff.mp h).1

section
variable {κ : Type} {issues redeems : Rec σ α → κ → Prop} {f : Nat → Nat} {r : Rec σ α} {k : κ}

/-- `f` sends every step that redeems a ticket to an earlier step that issued it, and no two
redeeming steps to the same one. -/
structure Matching {κ : Type} (issues redeems : Rec σ α → κ → Prop) (rs : List (Rec σ α))
    (f : Nat → Nat) : Prop where
  issued : ∀ i r k, rs[i]? = some r → redeems r k →
    f i < i ∧ ∃ r', rs[f i]? = some r' ∧ issues r' k
  inj : ∀ i j r r' k k', rs[i]? = some r → redeems r k → rs[j]? = some r' → redeems r' k' →
    f i = f j → i = j

/-- The step `g` issued `k`, and no redeeming step is matched with it. -/
structure Spare (issues redeems : Rec σ α → κ → Prop) (rs : List (Rec σ α)) (f : Nat → Nat) (k : κ)
    (g : Nat) : Prop where
  issued : ∃ r, rs[g]? = some r ∧ issues r k
  unmatched : ∀ i r' k', rs[i]? = some r' → redeems r' k' → f i ≠ g

theorem matching_nil : Matching issues redeems [] f :=
  ⟨by simp, by simp⟩

theorem Matching.snoc (h : Matching issues redeems rs f) (hr : ∀ k, ¬ redeems r k) :
    Matching issues redeems (rs ++ [r]) f := by
  have hold : ∀ {i : Nat} {r' : Rec σ α} {k' : κ}, (rs ++ [r])[i]? = some r' → redeems r' k' →
      rs[i]? = some r' := by
    intro i r' k' hi hk
    rcases getElem?_snoc.mp hi with hi | ⟨-, rfl⟩
    · exact hi
    · exact absurd hk (hr k')
  constructor
  · intro i r' k' hi hk
    obtain ⟨hlt, r'', hr'', hk''⟩ := h.issued i r' k' (hold hi hk) hk
    exact ⟨hlt, r'', getElem?_snoc.mpr (.inl hr''), hk''⟩
  · intro i j r₁ r₂ k₁ k₂ hi hk₁ hj hk₂ heq
    exact h.inj i j r₁ r₂ k₁ k₂ (hold hi hk₁) hk₁ (hold hj hk₂) hk₂ heq

/-- A step that redeems a ticket is matched with a spare issue of it. -/
theorem Matching.snoc_redeems {g : Nat} (h : Matching issues redeems rs f)
    (hr : ∀ k', redeems r k' → k = k') (hg : Spare issues redeems rs f k g) :
    Matching issues redeems (rs ++ [r]) (Function.update f rs.length g) := by
  obtain ⟨⟨rg, hrg, hissue⟩, hfree⟩ := hg
  have hlt := lt_of_getElem? hrg
  constructor
  · intro i r' k' hi hk
    rcases getElem?_snoc.mp hi with hi | ⟨rfl, rfl⟩
    · obtain ⟨hlt', r'', hr'', hk''⟩ := h.issued i r' k' hi hk
      rw [Function.update_of_ne (lt_of_getElem? hi).ne]
      exact ⟨hlt', r'', getElem?_snoc.mpr (.inl hr''), hk''⟩
    · rw [Function.update_self]
      exact ⟨hlt, rg, getElem?_snoc.mpr (.inl hrg), hr k' hk ▸ hissue⟩
  · intro i j r₁ r₂ k₁ k₂ hi hk₁ hj hk₂ heq
    rcases getElem?_snoc.mp hi with hi | ⟨rfl, rfl⟩
    · rw [Function.update_of_ne (lt_of_getElem? hi).ne] at heq
      rcases getElem?_snoc.mp hj with hj | ⟨rfl, rfl⟩
      · rw [Function.update_of_ne (lt_of_getElem? hj).ne] at heq
        exact h.inj i j r₁ r₂ k₁ k₂ hi hk₁ hj hk₂ heq
      · rw [Function.update_self] at heq
        exact absurd heq (hfree i r₁ k₁ hi hk₁)
    · rw [Function.update_self] at heq
      rcases getElem?_snoc.mp hj with hj | ⟨rfl, rfl⟩
      · rw [Function.update_of_ne (lt_of_getElem? hj).ne] at heq
        exact absurd heq.symm (hfree j r₂ k₂ hj hk₂)
      · rfl

/-- A step that has just issued a ticket is spare. -/
theorem Matching.spare_last (h : Matching issues redeems (rs ++ [r]) f) (hk : issues r k) :
    Spare issues redeems (rs ++ [r]) f k rs.length := by
  refine ⟨⟨r, getElem?_snoc.mpr (.inr ⟨rfl, rfl⟩), hk⟩, fun i r' k' hi hk' => ?_⟩
  have hlt := (h.issued i r' k' hi hk').1
  have hi := lt_of_getElem? hi
  rw [List.length_append, List.length_singleton] at hi
  omega

theorem Spare.snoc {g : Nat} (h : Spare issues redeems rs f k g) (hr : ∀ k, ¬ redeems r k) :
    Spare issues redeems (rs ++ [r]) f k g := by
  obtain ⟨⟨rg, hrg, hissue⟩, hfree⟩ := h
  refine ⟨⟨rg, getElem?_snoc.mpr (.inl hrg), hissue⟩, fun i r' k' hi hk => ?_⟩
  rcases getElem?_snoc.mp hi with hi | ⟨-, rfl⟩
  · exact hfree i r' k' hi hk
  · exact absurd hk (hr k')

/-- Matching the last step with `g` leaves the other steps spare. -/
theorem Spare.snoc_redeems {g g' : Nat} (h : Spare issues redeems rs f k g') (hne : g ≠ g') :
    Spare issues redeems (rs ++ [r]) (Function.update f rs.length g) k g' := by
  obtain ⟨⟨rg, hrg, hissue⟩, hfree⟩ := h
  refine ⟨⟨rg, getElem?_snoc.mpr (.inl hrg), hissue⟩, fun i r' k' hi hk => ?_⟩
  rcases getElem?_snoc.mp hi with hi | ⟨rfl, -⟩
  · rw [Function.update_of_ne (lt_of_getElem? hi).ne]
    exact hfree i r' k' hi hk
  · rw [Function.update_self]
    exact hne

end

/-- If tickets become held only by being issued, one a step, and redeeming a ticket needs it held
and gives it up, then redeeming steps are matched injectively with issuing steps. -/
theorem matching {κ : Type} {H : σ → κ → Prop} {issues redeems : Rec σ α → κ → Prop}
    (h₀ : ∀ k, ¬ H s₀ k)
    (hissue : ∀ r k k', R r.pre r.act r.post → issues r k → issues r k' → k = k')
    (honly : ∀ r k k', R r.pre r.act r.post → redeems r k → redeems r k' → k = k')
    (hredeem : ∀ r k, R r.pre r.act r.post → redeems r k → H r.pre k ∧ ¬ H r.post k)
    (hheld : ∀ r k, R r.pre r.act r.post → H r.post k → issues r k ∨ H r.pre k)
    (hrun : Run R s₀ rs s) : ∃ f, Matching issues redeems rs f := by
  -- every ticket that is held has a spare issue
  suffices h : ∃ f, Matching issues redeems rs f ∧
      ∀ k, H s k → ∃ g, Spare issues redeems rs f k g from h.imp fun f hf => hf.1
  induction hrun with
  | nil => exact ⟨id, matching_nil, fun k hk => absurd hk (h₀ k)⟩
  | @snoc rs s s' a hrun hs ih =>
    obtain ⟨f, hf, hspare⟩ := ih
    by_cases hred : ∃ k, redeems ⟨s, a, s'⟩ k
    · obtain ⟨k, hk⟩ := hred
      obtain ⟨hpre, hpost⟩ := hredeem _ k hs hk
      obtain ⟨g, hg⟩ := hspare k hpre
      have hf' := hf.snoc_redeems (fun k' => honly _ k k' hs hk) hg
      refine ⟨_, hf', fun k' hk' => ?_⟩
      rcases hheld ⟨s, a, s'⟩ k' hs hk' with hnew | hold
      · exact ⟨_, hf'.spare_last hnew⟩
      · obtain ⟨g', hg'⟩ := hspare k' hold
        refine ⟨g', hg'.snoc_redeems ?_⟩
        -- the step `g` issued one ticket, and `k` is not held any more
        rintro rfl
        obtain ⟨r, hr, hrk⟩ := hg.issued
        obtain ⟨r', hr', hrk'⟩ := hg'.issued
        obtain rfl := Option.some.inj (hr.symm.trans hr')
        obtain rfl := hissue r k k' (hrun.step_of_mem (List.mem_of_getElem? hr)) hrk hrk'
        exact hpost hk'
    · have hidle : ∀ k, ¬ redeems ⟨s, a, s'⟩ k := fun k hk => hred ⟨k, hk⟩
      have hf' := hf.snoc hidle
      refine ⟨f, hf', fun k hk => ?_⟩
      rcases hheld ⟨s, a, s'⟩ k hs hk with hnew | hold
      · exact ⟨_, hf'.spare_last hnew⟩
      · obtain ⟨g, hg⟩ := hspare k hold
        exact ⟨g, hg.snoc hidle⟩

open Classical in
/-- The positions of the steps of `rs` that satisfy `p`. -/
noncomputable def positions (rs : List (Rec σ α)) (p : Rec σ α → Prop) : Finset Nat :=
  (Finset.range rs.length).filter fun i => ∃ r, rs[i]? = some r ∧ p r

theorem mem_positions {p : Rec σ α → Prop} {i : Nat} :
    i ∈ positions rs p ↔ ∃ r, rs[i]? = some r ∧ p r := by
  simp only [positions, Finset.mem_filter, Finset.mem_range, and_iff_right_iff_imp]
  rintro ⟨r, hr, -⟩
  exact (List.getElem?_eq_some_iff.mp hr).1

/-- With a matching, tickets of any kind `K` are redeemed no more often than issued. -/
theorem Matching.card_le {κ : Type} {issues redeems : Rec σ α → κ → Prop} {f : Nat → Nat}
    (h : Matching issues redeems rs f) (K : κ → Prop) :
    (positions rs fun r => ∃ k, K k ∧ redeems r k).card ≤
      (positions rs fun r => ∃ k, K k ∧ issues r k).card := by
  refine Finset.card_le_card_of_injOn f (fun i hi => ?_) fun i hi j hj heq => ?_
  · obtain ⟨r, hr, k, hK, hk⟩ := mem_positions.mp hi
    obtain ⟨-, r', hr', hk'⟩ := h.issued i r k hr hk
    exact mem_positions.mpr ⟨r', hr', k, hK, hk'⟩
  · obtain ⟨r, hr, k, -, hk⟩ := mem_positions.mp hi
    obtain ⟨r', hr', k', -, hk'⟩ := mem_positions.mp hj
    exact h.inj i j r r' k k' hr hk hr' hk' heq

end Run
end Reticulum
