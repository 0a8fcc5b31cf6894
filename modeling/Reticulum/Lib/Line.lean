import Mathlib.Data.List.Forall2
import Mathlib.Tactic.Common

/-!
# Messages along a line of nodes

`R n m n' m'` says that the node `n` takes in the message `m`, becomes `n'` and sends `m'` to its
neighbour. `Rightward R` passes a message through a whole line from the head on, `Leftward R` from
the last node back to the head.
-/

namespace Reticulum
variable {ν μ : Type} {R : ν → μ → ν → μ → Prop}

inductive Rightward (R : ν → μ → ν → μ → Prop) : List ν → μ → List ν → μ → Prop
  | nil {m : μ} : Rightward R [] m [] m
  | cons {n n' : ν} {m m' m'' : μ} {ns ns' : List ν} :
    R n m n' m' → Rightward R ns m' ns' m'' → Rightward R (n :: ns) m (n' :: ns') m''

inductive Leftward (R : ν → μ → ν → μ → Prop) : List ν → μ → List ν → μ → Prop
  | nil {m : μ} : Leftward R [] m [] m
  | cons {n n' : ν} {m m' m'' : μ} {ns ns' : List ν} :
    Leftward R ns m ns' m' → R n m' n' m'' → Leftward R (n :: ns) m (n' :: ns') m''

/-- A property of the nodes carries over, node by node, to what they become. -/
theorem forall_of_forall₂ {P : ν → ν → Prop} {A B : ν → Prop} {ns ns' : List ν}
    (h : List.Forall₂ P ns ns') (hA : ∀ n ∈ ns, A n) (hstep : ∀ n n', P n n' → A n → B n') :
    ∀ n' ∈ ns', B n' := by
  induction h with
  | nil => intro n' hn'; cases hn'
  | @cons n n' ns ns' hn _ ih =>
    intro m' hm'
    rcases List.mem_cons.mp hm' with rfl | hm'
    · exact hstep n m' hn (hA n (List.mem_cons_self ..))
    · exact ih (fun m hm => hA m (List.mem_cons_of_mem _ hm)) m' hm'

theorem forall_right_of_forall₂ {P : ν → ν → Prop} {B : ν → Prop} {ns ns' : List ν}
    (h : List.Forall₂ P ns ns') (hstep : ∀ n n', P n n' → B n') : ∀ n' ∈ ns', B n' :=
  forall_of_forall₂ (A := fun _ => True) h (fun _ _ => trivial) fun n n' hn _ => hstep n n' hn

/-- A message gets through if every node passes it on in the form the rest of the line needs. -/
theorem Rightward.exists_of {I : List ν → μ → Prop} {P : ν → ν → Prop} {ns : List ν} {m : μ}
    (h : ∀ n ns m, I (n :: ns) m → ∃ n' m', R n m n' m' ∧ P n n' ∧ I ns m') (hI : I ns m) :
    ∃ ns' m', Rightward R ns m ns' m' ∧ List.Forall₂ P ns ns' ∧ I [] m' := by
  induction ns generalizing m with
  | nil => exact ⟨[], m, .nil, .nil, hI⟩
  | cons n ns ih =>
    obtain ⟨n', m', hR, hP, hI'⟩ := h n ns m hI
    obtain ⟨ns', m'', hns, hPs, hlast⟩ := ih hI'
    exact ⟨n' :: ns', m'', .cons hR hns, .cons hP hPs, hlast⟩

/-- A message gets through if every node passes it on in a form that every node passes on. -/
theorem Leftward.exists_of {C : ν → Prop} {J : μ → Prop} {P : ν → ν → Prop} {ns : List ν} {m : μ}
    (h : ∀ n m, C n → J m → ∃ n' m', R n m n' m' ∧ P n n' ∧ J m') (hC : ∀ n ∈ ns, C n) (hJ : J m) :
    ∃ ns' m', Leftward R ns m ns' m' ∧ List.Forall₂ P ns ns' ∧ J m' := by
  induction ns with
  | nil => exact ⟨[], m, .nil, .nil, hJ⟩
  | cons n ns ih =>
    obtain ⟨ns', m', hns, hPs, hJ'⟩ := ih fun x hx => hC x (List.mem_cons_of_mem _ hx)
    obtain ⟨n', m'', hR, hP, hlast⟩ := h n m' (hC n (List.mem_cons_self ..)) hJ'
    exact ⟨n' :: ns', m'', .cons hns hR, .cons hP hPs, hlast⟩

/-- What every node makes of the nodes and messages it may meet, a whole line does. -/
theorem Rightward.inv {C D : ν → Prop} {J : μ → Prop} {ns ns' : List ν} {m m' : μ}
    (h : Rightward R ns m ns' m')
    (hstep : ∀ n m n' m', C n → J m → R n m n' m' → D n' ∧ J m') (hC : ∀ n ∈ ns, C n)
    (hJ : J m) : (∀ n' ∈ ns', D n') ∧ J m' := by
  induction h with
  | nil => exact ⟨fun n' hn' => (List.not_mem_nil hn').elim, hJ⟩
  | cons hR _ ih =>
    obtain ⟨hD, hJ'⟩ := hstep _ _ _ _ (hC _ (List.mem_cons_self ..)) hJ hR
    obtain ⟨hDs, hlast⟩ := ih (fun x hx => hC x (List.mem_cons_of_mem _ hx)) hJ'
    exact ⟨List.forall_mem_cons.mpr ⟨hD, hDs⟩, hlast⟩

theorem Leftward.inv {C D : ν → Prop} {J : μ → Prop} {ns ns' : List ν} {m m' : μ}
    (h : Leftward R ns m ns' m')
    (hstep : ∀ n m n' m', C n → J m → R n m n' m' → D n' ∧ J m') (hC : ∀ n ∈ ns, C n)
    (hJ : J m) : (∀ n' ∈ ns', D n') ∧ J m' := by
  induction h with
  | nil => exact ⟨fun n' hn' => (List.not_mem_nil hn').elim, hJ⟩
  | cons _ hR ih =>
    obtain ⟨hDs, hJ'⟩ := ih (fun x hx => hC x (List.mem_cons_of_mem _ hx)) hJ
    obtain ⟨hD, hlast⟩ := hstep _ _ _ _ (hC _ (List.mem_cons_self ..)) hJ' hR
    exact ⟨List.forall_mem_cons.mpr ⟨hD, hDs⟩, hlast⟩

end Reticulum
