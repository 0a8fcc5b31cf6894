import Mathlib.Data.List.AList

/-!
# Finite dictionaries

`Dict κ α` is Mathlib's association list with pairwise distinct keys, at a constant value type. This
file adds the operations a mutable hash map offers beyond lookup, insertion and deletion: keeping
the entries that satisfy a test, rewriting one entry in place, inserting only when the key is free.
-/

namespace Reticulum

abbrev Dict (κ α : Type) := AList fun _ : κ => α

namespace Dict
variable {κ α : Type}

def values (d : Dict κ α) : List α := d.entries.map Sigma.snd

def retain (p : α → Bool) (d : Dict κ α) : Dict κ α :=
  ⟨d.entries.filter fun e => p e.2,
    d.nodupKeys.sublist List.filter_sublist⟩

variable [DecidableEq κ]

/-- Rewrite the value stored under `k`, if there is one. -/
def modify (k : κ) (f : α → α) (d : Dict κ α) : Dict κ α :=
  match d.lookup k with
  | none => d
  | some v => d.insert k (f v)

/-- Insert under `k` unless the key is taken. -/
def emplace (k : κ) (v : α) (d : Dict κ α) : Dict κ α :=
  match d.lookup k with
  | none => d.insert k v
  | some _ => d

theorem lookup_insert_eq (k k' : κ) (v : α) (d : Dict κ α) :
    (AList.insert k v d).lookup k' = if k' = k then some v else d.lookup k' := by
  split
  · subst k'; exact AList.lookup_insert d
  · exact AList.lookup_insert_ne ‹_›

theorem lookup_erase_eq (k k' : κ) (d : Dict κ α) :
    (AList.erase k d).lookup k' = if k' = k then none else d.lookup k' := by
  split
  · subst k'; exact AList.lookup_erase k d
  · exact AList.lookup_erase_ne ‹_›

theorem lookup_modify (k k' : κ) (f : α → α) (d : Dict κ α) :
    (modify k f d).lookup k' = if k' = k then (d.lookup k).map f else d.lookup k' := by
  cases h : d.lookup k with
  | none =>
    simp only [modify, h, Option.map_none]
    split
    · subst k'; exact h
    · rfl
  | some v => simp only [modify, h, Option.map_some, lookup_insert_eq]

theorem lookup_emplace (k k' : κ) (v : α) (d : Dict κ α) :
    (emplace k v d).lookup k' = if k' = k then some ((d.lookup k).getD v) else d.lookup k' := by
  cases h : d.lookup k with
  | none => simp only [emplace, h, lookup_insert_eq, Option.getD_none]
  | some w =>
    simp only [emplace, h, Option.getD_some]
    split
    · subst k'; exact h
    · rfl

theorem lookup_retain (p : α → Bool) (d : Dict κ α) (k : κ) :
    (retain p d).lookup k = (d.lookup k).filter p := by
  apply Option.ext
  intro v
  have hmem : v ∈ (retain p d).lookup k ↔ v ∈ d.lookup k ∧ p v = true := by
    rw [AList.mem_lookup_iff, AList.mem_lookup_iff]
    simp [retain]
  simpa [Option.filter_eq_some_iff] using hmem

theorem mem_values_iff (d : Dict κ α) (v : α) : v ∈ d.values ↔ ∃ k, d.lookup k = some v := by
  simp only [values, List.mem_map]
  constructor
  · rintro ⟨⟨k, w⟩, hm, rfl⟩
    exact ⟨k, AList.mem_lookup_iff.mpr hm⟩
  · rintro ⟨k, hk⟩
    exact ⟨⟨k, v⟩, AList.mem_lookup_iff.mp hk, rfl⟩

omit [DecidableEq κ] in
/-- The values taken out by a test and those that stay are all the values. -/
theorem countP_values_retain (p q : α → Bool) (d : Dict κ α) :
    d.values.countP p =
      (d.values.filter q).countP p + (retain (fun v => !q v) d).values.countP p := by
  have hvalues : (retain (fun v => !q v) d).values = d.values.filter fun v => !q v := by
    simp [values, retain, List.filter_map, Function.comp_def]
  rw [hvalues, List.countP_eq_countP_filter_add d.values p q]

theorem countP_values_insert (p : α → Bool) (k : κ) (v : α) (d : Dict κ α) :
    (values (AList.insert k v d)).countP p ≤ d.values.countP p + if p v then 1 else 0 := by
  have hsub : ((List.kerase k d.entries).map Sigma.snd).Sublist d.values :=
    (List.kerase_sublist k d.entries).map Sigma.snd
  have hvalues : values (AList.insert k v d) = v :: (List.kerase k d.entries).map Sigma.snd := by
    simp [values, AList.entries_insert]
  rw [hvalues, List.countP_cons]
  exact Nat.add_le_add_right hsub.countP_le _

theorem insert_injective {k k' : κ} {v v' : α} {d : Dict κ α}
    (h : AList.insert k v d = AList.insert k' v' d) : k = k' ∧ v = v' := by
  have hentries := congrArg AList.entries h
  rw [AList.entries_insert, AList.entries_insert] at hentries
  obtain ⟨hk, hv⟩ := Sigma.mk.inj (List.cons.inj hentries).1
  exact ⟨hk, eq_of_heq hv⟩

/-- Values that know their keys are pairwise distinct. -/
theorem nodup_map_values {f : α → κ} {d : Dict κ α} (h : ∀ k v, d.lookup k = some v → k = f v) :
    (d.values.map f).Nodup := by
  have hkeys : d.values.map f = d.entries.map Sigma.fst := by
    rw [values, List.map_map]
    refine List.map_congr_left ?_
    rintro ⟨k, v⟩ hmem
    exact (h k v (AList.mem_lookup_iff.mpr hmem)).symm
  rw [hkeys]
  exact d.nodupKeys

/-- A test that only the value under `k` passes. -/
theorem filter_values {p : α → Bool} {k : κ} {v : α} {d : Dict κ α} (hv : d.lookup k = some v)
    (h : ∀ k' w, d.lookup k' = some w → (p w = true ↔ k' = k)) : d.values.filter p = [v] := by
  have hnodup : (d.entries.filter fun e => p e.2).Nodup := d.nodupKeys.nodup.filter _
  have hperm : (d.entries.filter fun e => p e.2).Perm [⟨k, v⟩] := by
    rw [List.perm_ext_iff_of_nodup hnodup (List.nodup_singleton _)]
    rintro ⟨k', w⟩
    rw [List.mem_filter, List.mem_singleton, ← AList.mem_lookup_iff]
    constructor
    · rintro ⟨hw, hp⟩
      obtain rfl := (h k' w hw).mp hp
      cases hv.symm.trans hw
      rfl
    · rintro ⟨⟩
      exact ⟨hv, (h k v hv).mpr rfl⟩
  rw [values, List.filter_map]
  show List.map Sigma.snd (d.entries.filter fun e => p e.2) = [v]
  rw [List.perm_singleton.mp hperm]
  rfl

/-! ### Properties of all entries -/

/-- Every entry satisfies `P`. -/
def All (P : κ → α → Prop) (d : Dict κ α) : Prop := ∀ k v, d.lookup k = some v → P k v

namespace All
variable {P Q : κ → α → Prop} {d : Dict κ α}

theorem empty : All P (∅ : Dict κ α) := by
  intro k v h
  cases h

theorem mono (h : d.All P) (hPQ : ∀ k v, P k v → Q k v) : d.All Q :=
  fun k v hv => hPQ k v (h k v hv)

theorem insert (h : d.All P) {k : κ} {v : α} (hv : P k v) : All P (AList.insert k v d) := by
  intro k' v' hv'
  rw [lookup_insert_eq] at hv'
  split at hv'
  · rename_i hk
    cases hv'
    exact hk ▸ hv
  · exact h k' v' hv'

theorem erase (h : d.All P) (k : κ) : All P (AList.erase k d) := by
  intro k' v' hv'
  rw [lookup_erase_eq] at hv'
  split at hv'
  · cases hv'
  · exact h k' v' hv'

theorem modify (h : d.All P) {k : κ} {f : α → α} (hf : ∀ v, d.lookup k = some v → P k (f v)) :
    All P (modify k f d) := by
  intro k' v' hv'
  rw [lookup_modify] at hv'
  split at hv'
  · rename_i hk
    obtain ⟨v, hv, rfl⟩ := Option.map_eq_some_iff.mp hv'
    exact hk ▸ hf v hv
  · exact h k' v' hv'

theorem retain (h : d.All P) (p : α → Bool) : All (fun k v => P k v ∧ p v = true) (retain p d) := by
  intro k v hv
  rw [lookup_retain, Option.filter_eq_some_iff] at hv
  exact ⟨h k v hv.1, hv.2⟩

/-- Where the key of every value that passes the test `q` comes from an element of `l` that passes
`p`, there are no more such values than such elements. -/
theorem countP_le {β : Type} {l : List β} {p : β → Bool} {q : α → Bool} {key : β → Option κ}
    (h : d.All fun k v => q v = true → ∃ b ∈ l, p b = true ∧ key b = some k) :
    d.values.countP q ≤ l.countP p := by
  have hsub : (Dict.retain q d).keys ⊆ (l.filter p).filterMap key := by
    intro k hk
    obtain ⟨v, hv⟩ := Option.isSome_iff_exists.mp (AList.lookup_isSome.mpr (AList.mem_keys.mp hk))
    obtain ⟨hall, hq⟩ := h.retain q k v hv
    obtain ⟨b, hb, hp, hkey⟩ := hall hq
    exact List.mem_filterMap.mpr ⟨b, List.mem_filter.mpr ⟨hb, hp⟩, hkey⟩
  have hlen := (List.subperm_of_subset (Dict.retain q d).nodupKeys hsub).length_le
  rw [List.countP_eq_length_filter, List.countP_eq_length_filter]
  calc (d.values.filter q).length
    _ = (Dict.retain q d).keys.length := by
      simp [values, Dict.retain, AList.keys, List.keys, List.filter_map, Function.comp_def]
    _ ≤ ((l.filter p).filterMap key).length := hlen
    _ ≤ (l.filter p).length := List.length_filterMap_le _ _

end All

end Dict
end Reticulum
