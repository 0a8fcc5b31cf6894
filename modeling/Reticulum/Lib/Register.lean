import Reticulum.Lib.Run

/-!
# Registers with a copy that lasts

A register holds a value, which a restart loses, and a copy of an earlier one, which a restart may
find. A store replaces the copy or spoils it, so what is found is what was stored last, or nothing
(`Register.saved_of_run`).
-/

namespace Reticulum

structure Register (α : Type) where
  running : α
  saved : Option α

namespace Register
variable {α : Type}

inductive Op (α : Type) where
  | write (v : α)
  | store (done : Bool)
  | restart (found : Bool)

/-- `stamp` is what a store makes of a value, `init` what there is when no copy is found. -/
inductive Step (stamp : α → α) (init : α) (r : Register α) : Op α → Register α → Prop
  | write (v : α) : Step stamp init r (.write v) { r with running := v }
  | store : Step stamp init r (.store true) { r with saved := some (stamp r.running) }
  | spoil {saved : Option α} (h : saved = r.saved ∨ saved = none) :
    Step stamp init r (.store false) { r with saved }
  | restart : Step stamp init r (.restart true) { r with running := r.saved.getD init }
  | forget : Step stamp init r (.restart false) { r with running := init }

variable {stamp : α → α} {init : α} {r₀ r r' : Register α} {op : Op α}
  {pre post : List (Rec (Register α) (Op α))} {o : Rec (Register α) (Op α)}

/-- No store but a successful one puts anything new into the copy, and only a failed one spoils
it. -/
theorem Step.saved (h : Step stamp init r op r') (hop : op ≠ .store true) :
    r'.saved = r.saved ∨ (op = .store false ∧ r'.saved = none) := by
  cases h with
  | write v => exact .inl rfl
  | store => exact absurd rfl hop
  | spoil hsaved =>
    rcases hsaved with rfl | rfl
    · exact .inl rfl
    · exact .inr ⟨rfl, rfl⟩
  | restart => exact .inl rfl
  | forget => exact .inl rfl

theorem saved_of_quiet (h : Run (Step stamp init) r₀ post r)
    (hpost : ∀ p ∈ post, p.act ≠ .store true) :
    r.saved = r₀.saved ∨ ((∃ p ∈ post, p.act = .store false) ∧ r.saved = none) := by
  induction h with
  | nil => exact .inl rfl
  | @snoc post s s' op h hstep ih =>
    rcases hstep.saved (hpost ⟨s, op, s'⟩ (by simp)) with hsame | ⟨hop, hnone⟩
    · rw [hsame]
      rcases ih fun p hp => hpost p (List.mem_append_left _ hp) with hs | ⟨⟨p, hp, hact⟩, hs⟩
      · exact .inl hs
      · exact .inr ⟨⟨p, List.mem_append_left _ hp, hact⟩, hs⟩
    · exact .inr ⟨⟨⟨s, op, s'⟩, by simp, hop⟩, hnone⟩

/-- The copy is of the last store that succeeded, unless a later one has spoiled it. -/
theorem saved_of_run (h : Run (Step stamp init) r₀ (pre ++ o :: post) r)
    (ho : o.act = .store true) (hpost : ∀ p ∈ post, p.act ≠ .store true) :
    r.saved = some (stamp o.pre.running) ∨
      ((∃ p ∈ post, p.act = .store false) ∧ r.saved = none) := by
  obtain ⟨-, hstore, hrest⟩ := h.split_at
  have hcopy : o.post.saved = some (stamp o.pre.running) := by
    generalize o.post = stored at hstore
    rw [ho] at hstore
    cases hstore
    rfl
  rw [← hcopy]
  exact saved_of_quiet hrest hpost

end Register
end Reticulum
