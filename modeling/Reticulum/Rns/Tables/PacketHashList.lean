import Reticulum.Lib.Recent
import Reticulum.Lib.Run
import Reticulum.Rns.Bytes

/-!
# The packet-hash ring (`tables/PacketHashList`)

A bounded set of recently seen hashes, kept twice: in insertion order, and as a set of hex keys.
-/

namespace Reticulum

structure PacketHashList where
  maxSize : Nat
  order : List Bytes
  set : Finset HexString

namespace PacketHashList

def defaultMaxSize : Nat := 1000000

def new (maxSize : Nat) : PacketHashList := ⟨maxSize, [], ∅⟩

def contains (l : PacketHashList) (hash : Bytes) : Bool := keyOf hash ∈ l.set

def size (l : PacketHashList) : Nat := l.order.length

/-- `insert`: whether the hash was absent, and the list with it. -/
def insert (l : PacketHashList) (hash : Bytes) : Bool × PacketHashList :=
  if keyOf hash ∈ l.set then (false, l)
  else (true, { l with order := l.order ++ [hash], set := Insert.insert (keyOf hash) l.set })

/-- `purge_if_over_cap`: the number dropped, and the list without its older half. -/
def purgeIfOverCap (l : PacketHashList) : Nat × PacketHashList :=
  if l.order.length ≤ l.maxSize then (0, l)
  else
    let drop := l.order.length / 2
    (drop, { l with
      order := l.order.drop drop
      set := (l.order.take drop).foldl (fun set hash => set.erase (keyOf hash)) l.set })

theorem insert_of_contains {l : PacketHashList} {hash : Bytes} (h : l.contains hash = true) :
    l.insert hash = (false, l) := by
  simp only [contains, decide_eq_true_eq] at h
  simp [insert, h]

theorem insert_of_not_contains {l : PacketHashList} {hash : Bytes} (h : l.contains hash = false) :
    (l.insert hash).1 = true := by
  simp only [contains, decide_eq_false_iff_not] at h
  simp [insert, h]

theorem contains_insert (l : PacketHashList) (hash hash' : Bytes) :
    (l.insert hash).2.contains hash' = (decide (hash' = hash) || l.contains hash') := by
  unfold insert
  split
  · by_cases h : hash' = hash
    · subst h; simp [contains, ‹_›]
    · simp [h]
  · simp [contains, Finset.mem_insert]

theorem foldl_erase_subset (hs : List Bytes) (s : Finset HexString) :
    hs.foldl (fun set hash => set.erase (keyOf hash)) s ⊆ s := by
  induction hs generalizing s with
  | nil => exact Finset.Subset.refl s
  | cons h hs ih => exact (ih _).trans (Finset.erase_subset _ _)

theorem contains_of_purge {l : PacketHashList} {hash : Bytes}
    (h : (l.purgeIfOverCap).2.contains hash = true) : l.contains hash = true := by
  unfold purgeIfOverCap at h
  split at h
  · exact h
  · simp only [contains, decide_eq_true_eq] at h ⊢
    exact foldl_erase_subset _ _ h

@[simp] theorem insert_maxSize (l : PacketHashList) (hash : Bytes) :
    (l.insert hash).2.maxSize = l.maxSize := by
  unfold insert
  split <;> rfl

@[simp] theorem purgeIfOverCap_maxSize (l : PacketHashList) :
    l.purgeIfOverCap.2.maxSize = l.maxSize := by
  unfold purgeIfOverCap
  split <;> rfl

theorem mem_foldl_erase {hs : List Bytes} {s : Finset HexString} {hash : Bytes} :
    keyOf hash ∈ hs.foldl (fun set hash => set.erase (keyOf hash)) s ↔
      keyOf hash ∈ s ∧ hash ∉ hs := by
  induction hs generalizing s with
  | nil => simp
  | cons h hs ih =>
    rw [List.foldl_cons, ih, Finset.mem_erase, List.mem_cons, Ne, keyOf_inj]
    tauto

/-! ### How long an entry stays -/

/-- The two copies agree. -/
structure Valid (l : PacketHashList) : Prop where
  nodup : l.order.Nodup
  mem_set : ∀ hash, keyOf hash ∈ l.set ↔ hash ∈ l.order

theorem valid_new (maxSize : Nat) : (new maxSize).Valid := ⟨List.nodup_nil, by simp [new]⟩

theorem Valid.insert {l : PacketHashList} (h : l.Valid) (hash : Bytes) :
    (l.insert hash).2.Valid := by
  unfold PacketHashList.insert
  split
  · exact h
  rename_i hnew
  have hfresh : hash ∉ l.order := fun hmem => hnew ((h.mem_set hash).mpr hmem)
  constructor
  · have hdisjoint : ∀ x ∈ l.order, ∀ y ∈ [hash], x ≠ y := by
      rintro x hx y hy rfl
      rw [List.mem_singleton.mp hy] at hx
      exact hfresh hx
    exact List.nodup_append.mpr ⟨h.nodup, List.nodup_singleton hash, hdisjoint⟩
  · intro hash'
    rw [Finset.mem_insert, keyOf_inj, h.mem_set, List.mem_append, List.mem_singleton, or_comm]

theorem Valid.purgeIfOverCap {l : PacketHashList} (h : l.Valid) : l.purgeIfOverCap.2.Valid := by
  unfold PacketHashList.purgeIfOverCap
  split
  · exact h
  have hsplit := h.nodup
  rw [← List.take_append_drop (l.order.length / 2) l.order, List.nodup_append] at hsplit
  obtain ⟨-, hnodup, hdisjoint⟩ := hsplit
  refine ⟨hnodup, fun hash => ?_⟩
  rw [mem_foldl_erase, h.mem_set]
  constructor
  · rintro ⟨hmem, hgone⟩
    rw [← List.take_append_drop (l.order.length / 2) l.order] at hmem
    exact (List.mem_append.mp hmem).resolve_left hgone
  · intro hmem
    exact ⟨List.mem_of_mem_drop hmem, fun hgone => hdisjoint hash hgone hash hmem rfl⟩

/-- `hash` is in the list, and what came in after it is in `S`. -/
def Retains (l : PacketHashList) (hash : Bytes) (S : Finset Bytes) : Prop :=
  Trailed l.order hash S

section
variable {l : PacketHashList} {hash : Bytes} {S : Finset Bytes}

theorem Retains.contains (h : l.Retains hash S) (hl : l.Valid) : l.contains hash = true := by
  have hmem : keyOf hash ∈ l.set := (hl.mem_set hash).mpr h.mem
  simpa [PacketHashList.contains] using hmem

theorem order_insert (h : l.contains hash = false) :
    (l.insert hash).2.order = l.order ++ [hash] := by
  have hnew : keyOf hash ∉ l.set := by simpa [PacketHashList.contains] using h
  simp [PacketHashList.insert, hnew]

theorem retains_insert (h : l.contains hash = false) : (l.insert hash).2.Retains hash S := by
  rw [Retains, order_insert h]
  exact Trailed.last l.order hash S

theorem Retains.insert (h : l.Retains hash S) {hash' : Bytes}
    (hnew : l.contains hash' = false) (hS : hash' ∈ S) : (l.insert hash').2.Retains hash S := by
  rw [Retains, order_insert hnew]
  exact h.snoc hS

/-- A purge drops the older half, so half of the capacity may come in after an entry before it
goes. -/
theorem Retains.purgeIfOverCap (h : l.Retains hash S) (hl : l.Valid)
    (hS : S.card ≤ l.maxSize / 2) : l.purgeIfOverCap.2.Retains hash S := by
  unfold PacketHashList.purgeIfOverCap
  split
  · exact h
  · exact Trailed.drop h hl.nodup (by omega)

end

/-! ### Over runs -/

/-- What the calls of a node do to a list, and the hash they add to it. -/
inductive Moves (l : PacketHashList) : Option Bytes → PacketHashList → Prop
  | keep : Moves l none l
  | insert {hash : Bytes} (h : l.contains hash = false) : Moves l (some hash) (l.insert hash).2
  | purge : Moves l none l.purgeIfOverCap.2

namespace Moves
variable {l l' : PacketHashList} {added : Option Bytes} {hash : Bytes} {S : Finset Bytes}

theorem valid (h : l.Moves added l') (hl : l.Valid) : l'.Valid := by
  cases h with
  | keep => exact hl
  | insert _ => exact hl.insert _
  | purge => exact hl.purgeIfOverCap

theorem maxSize (h : l.Moves added l') : l'.maxSize = l.maxSize := by
  cases h with
  | keep => rfl
  | insert _ => exact insert_maxSize _ _
  | purge => exact purgeIfOverCap_maxSize _

theorem contains (h : l.Moves added l') (hnew : l'.contains hash = true) :
    added = some hash ∨ l.contains hash = true := by
  cases h with
  | keep => exact Or.inr hnew
  | insert _ =>
    rw [contains_insert, Bool.or_eq_true, decide_eq_true_eq] at hnew
    exact hnew.imp (fun heq => congrArg some heq.symm) id
  | purge => exact Or.inr (contains_of_purge hnew)

/-- A hash in the list outlasts a call, as long as few enough have come in after it. -/
theorem retains (h : l.Moves added l') (hl : l.Valid) (hr : l.Retains hash S)
    (hadded : ∀ hash', added = some hash' → hash' ≠ hash → hash' ∈ S)
    (hS : S.card ≤ l.maxSize / 2) : l'.Retains hash S := by
  cases h with
  | keep => exact hr
  | @insert hash' hnew =>
    refine hr.insert hnew (hadded hash' rfl ?_)
    rintro rfl
    exact absurd (hr.contains hl) (by simp [hnew])
  | purge => exact hr.purgeIfOverCap hl hS

end Moves

section
variable {σ α : Type} {R : σ → α → σ → Prop} (list : σ → PacketHashList)
  {added : Rec σ α → Option Bytes} {s₀ s : σ} {rs : List (Rec σ α)} {hash : Bytes}
  {S : Finset Bytes}

theorem valid_of_run
    (hmoves : ∀ r, R r.pre r.act r.post → (list r.pre).Moves (added r) (list r.post))
    (hrun : Run R s₀ rs s) (h₀ : (list s₀).Valid) : (list s).Valid := by
  refine hrun.inv (I := fun s => (list s).Valid) h₀ ?_
  intro s a s' hs hstep
  exact (hmoves ⟨s, a, s'⟩ hstep).valid hs

theorem maxSize_of_run
    (hmoves : ∀ r, R r.pre r.act r.post → (list r.pre).Moves (added r) (list r.post))
    (hrun : Run R s₀ rs s) : (list s).maxSize = (list s₀).maxSize := by
  refine hrun.inv (I := fun s => (list s).maxSize = (list s₀).maxSize) rfl ?_
  intro s a s' hs hstep
  exact (hmoves ⟨s, a, s'⟩ hstep).maxSize.trans hs

theorem retains_of_run
    (hmoves : ∀ r, R r.pre r.act r.post → (list r.pre).Moves (added r) (list r.post))
    (hrun : Run R s₀ rs s) (hl : (list s₀).Valid) (hr : (list s₀).Retains hash S)
    (hadded : ∀ r ∈ rs, ∀ hash', added r = some hash' → hash' ≠ hash → hash' ∈ S)
    (hS : S.card ≤ (list s₀).maxSize / 2) : (list s).Retains hash S := by
  induction hrun with
  | nil => exact hr
  | @snoc rs s s' a hrun hstep ih =>
    have hkept := ih fun r hr => hadded r (List.mem_append_left _ hr)
    refine (hmoves ⟨s, a, s'⟩ hstep).retains (valid_of_run list hmoves hrun hl) hkept
      (hadded _ (by simp)) ?_
    rw [maxSize_of_run list hmoves hrun]
    exact hS

end

end PacketHashList
end Reticulum
