import Reticulum.Rns.Tables.PacketHashList

/-!
# What the packet-hash ring remembers

Calls of `insert` and `purge_if_over_cap` in any order, from an empty list. The order of insertion
is always the tail end of everything that was ever inserted.
-/

namespace Reticulum
namespace PacketHashList

inductive Call where
  | insert (hash : Bytes)
  | purgeIfOverCap
deriving DecidableEq

def Call.run : Call → PacketHashList → PacketHashList
  | .insert hash, l => (l.insert hash).2
  | .purgeIfOverCap, l => l.purgeIfOverCap.2

def Steps (l : PacketHashList) (call : Call) (l' : PacketHashList) : Prop := l' = call.run l

/-- The hash that a call has newly inserted. -/
def inserted (r : Rec PacketHashList Call) : Option Bytes :=
  match r.act with
  | .insert hash => if (r.pre.insert hash).1 then some hash else none
  | .purgeIfOverCap => none

/-- The steps of a sequence of calls. -/
def records (l : PacketHashList) : List Call → List (Rec PacketHashList Call)
  | [] => []
  | call :: calls => ⟨l, call, call.run l⟩ :: records (call.run l) calls

theorem run_records (l : PacketHashList) (calls : List Call) :
    Run Steps l (records l calls) (calls.foldl (fun l call => call.run l) l) := by
  induction calls generalizing l with
  | nil => exact .nil
  | cons call calls ih => exact (ih (call.run l)).cons rfl

/-! ### The two copies -/

/-- No key in the lookup set is anything but that of a hash. -/
def Keyed (l : PacketHashList) : Prop := ∀ key ∈ l.set, ∃ hash, keyOf hash = key

theorem keyed_new (maxSize : Nat) : (new maxSize).Keyed := by
  intro key hkey
  simp [new] at hkey

theorem Keyed.run {l : PacketHashList} (h : l.Keyed) (call : Call) : (call.run l).Keyed := by
  intro key hkey
  cases call with
  | insert hash =>
    have hkey : key ∈ (l.insert hash).2.set := hkey
    unfold PacketHashList.insert at hkey
    split at hkey
    · exact h key hkey
    · rcases Finset.mem_insert.mp hkey with rfl | hkey
      · exact ⟨hash, rfl⟩
      · exact h key hkey
  | purgeIfOverCap =>
    have hkey : key ∈ l.purgeIfOverCap.2.set := hkey
    unfold PacketHashList.purgeIfOverCap at hkey
    split at hkey
    · exact h key hkey
    · exact h key (foldl_erase_subset _ _ hkey)

theorem Valid.set_eq {l : PacketHashList} (h : l.Valid) (hk : l.Keyed) :
    l.set = (l.order.map keyOf).toFinset := by
  ext key
  rw [List.mem_toFinset, List.mem_map]
  constructor
  · intro hkey
    obtain ⟨hash, rfl⟩ := hk key hkey
    exact ⟨hash, (h.mem_set hash).mp hkey, rfl⟩
  · rintro ⟨hash, hmem, rfl⟩
    exact (h.mem_set hash).mpr hmem

theorem Valid.card_set {l : PacketHashList} (h : l.Valid) (hk : l.Keyed) : l.set.card = l.size := by
  have hinj : Function.Injective keyOf := fun a b heq => keyOf_inj.mp heq
  rw [h.set_eq hk, List.toFinset_card_of_nodup (h.nodup.map hinj), List.length_map, size]

theorem Valid.contains_iff {l : PacketHashList} (h : l.Valid) (hash : Bytes) :
    l.contains hash = true ↔ hash ∈ l.order := by
  rw [← h.mem_set hash]
  simp [PacketHashList.contains]

theorem insert_new_iff (l : PacketHashList) (hash : Bytes) :
    (l.insert hash).1 = true ↔ l.contains hash = false := by
  cases h : l.contains hash with
  | true => simp [insert_of_contains h]
  | false => simp [insert_of_not_contains h]

/-- What a purge drops is the front of the order, and it says how much that was. -/
theorem order_purge (l : PacketHashList) : ∃ dropped,
    l.order = dropped ++ l.purgeIfOverCap.2.order ∧ dropped.length = l.purgeIfOverCap.1 := by
  unfold purgeIfOverCap
  split
  · exact ⟨[], rfl, rfl⟩
  · refine ⟨l.order.take (l.order.length / 2), (List.take_append_drop _ _).symm, ?_⟩
    exact List.length_take_of_le (Nat.div_le_self _ _)

/-! ### Over runs -/

theorem moves_of_steps {r : Rec PacketHashList Call} (h : Steps r.pre r.act r.post) :
    r.pre.Moves (inserted r) r.post := by
  obtain ⟨l, call, l'⟩ := r
  obtain rfl : l' = call.run l := h
  cases call with
  | insert hash =>
    cases hin : l.contains hash with
    | true =>
      have hkeep : l.insert hash = (false, l) := insert_of_contains hin
      simpa [inserted, Call.run, hkeep] using Moves.keep
    | false =>
      have hnew : (l.insert hash).1 = true := insert_of_not_contains hin
      simpa [inserted, Call.run, hnew] using Moves.insert hin
  | purgeIfOverCap => exact Moves.purge

section
variable {max : Nat} {rs : List (Rec PacketHashList Call)} {l : PacketHashList}

theorem valid_of_calls (hrun : Run Steps (new max) rs l) : l.Valid :=
  valid_of_run id (fun _ => moves_of_steps) hrun (valid_new max)

theorem keyed_of_calls (hrun : Run Steps (new max) rs l) : l.Keyed := by
  refine hrun.inv (keyed_new max) ?_
  rintro l call _ hl rfl
  exact hl.run call

/-- The list is a tail end of the log of insertions. -/
theorem suffix_of_calls (hrun : Run Steps (new max) rs l) : l.order <:+ rs.filterMap inserted := by
  induction hrun with
  | nil => exact List.suffix_refl []
  | @snoc rs l l' call hrun hstep ih =>
    rw [List.filterMap_append]
    have hmoves : l.Moves (inserted ⟨l, call, l'⟩) l' :=
      moves_of_steps (r := ⟨l, call, l'⟩) hstep
    generalize hadd : inserted ⟨l, call, l'⟩ = added at hmoves
    cases hmoves with
    | keep => simpa [hadd] using ih
    | @insert hash hnew =>
      obtain ⟨old, hold⟩ := ih
      refine ⟨old, ?_⟩
      rw [order_insert hnew, ← List.append_assoc, hold]
      simp [hadd]
    | purge =>
      obtain ⟨dropped, horder, -⟩ := order_purge l
      have hsuffix : l.purgeIfOverCap.2.order <:+ l.order := ⟨dropped, horder.symm⟩
      simpa [hadd] using hsuffix.trans ih

/-- A hash is still there while fewer than half of `max + 1` others, rounded up, have come in behind
it: a purge is of more than `max` and leaves its younger half. -/
theorem contains_of_few {before after : List (Rec PacketHashList Call)}
    {r : Rec PacketHashList Call} {hash : Bytes}
    (hrun : Run Steps (new max) (before ++ r :: after) l)
    (hin : inserted r = some hash)
    (hfew : ((after.filterMap inserted).toFinset.erase hash).card < (max + 1 + 1) / 2) :
    l.contains hash = true := by
  obtain ⟨hbefore, hstep, hafter⟩ := hrun.split_at
  have hpre : r.pre.Valid := valid_of_calls hbefore
  have hmax : r.post.maxSize = max := by
    have hsize := maxSize_of_run id (fun _ => moves_of_steps) (hbefore.snoc hstep)
    exact hsize
  have hmoves : r.pre.Moves (inserted r) r.post := moves_of_steps hstep
  have hpost : r.post.Valid := hmoves.valid hpre
  have hheld : r.post.Retains hash ((after.filterMap inserted).toFinset.erase hash) := by
    rw [hin] at hmoves
    generalize r.post = l₁ at hmoves
    cases hmoves with
    | insert hnew => exact retains_insert hnew
  have hroom : ((after.filterMap inserted).toFinset.erase hash).card ≤ r.post.maxSize / 2 := by
    rw [hmax]
    omega
  have hkept := retains_of_run id (fun _ => moves_of_steps) hafter hpost hheld
    (fun r' hr' hash' hadd hne => Finset.mem_erase.mpr
      ⟨hne, List.mem_toFinset.mpr (List.mem_filterMap.mpr ⟨r', hr', hadd⟩)⟩) hroom
  exact hkept.contains (valid_of_calls hrun)

/-- The list over any calls: its two copies hold the same distinct hashes, the order is the tail end
of what was inserted, a purge drops its front, and a hash stays while few come in behind it. -/
theorem ring_retention (hrun : Run Steps (new max) rs l) :
    (l.order.Nodup ∧ l.set = (l.order.map keyOf).toFinset ∧ l.set.card = l.size) ∧
    (∀ hash, (l.contains hash = true ↔ hash ∈ l.order) ∧
      ((l.insert hash).1 = true ↔ l.contains hash = false)) ∧
    l.order <:+ rs.filterMap inserted ∧
    (∃ dropped, l.order = dropped ++ l.purgeIfOverCap.2.order ∧
      dropped.length = l.purgeIfOverCap.1) ∧
    ∀ before r after hash, rs = before ++ r :: after → inserted r = some hash →
      ((after.filterMap inserted).toFinset.erase hash).card < (max + 1 + 1) / 2 →
      l.contains hash = true := by
  have hvalid := valid_of_calls hrun
  have hkeyed := keyed_of_calls hrun
  refine ⟨⟨hvalid.nodup, hvalid.set_eq hkeyed, hvalid.card_set hkeyed⟩, ?_, suffix_of_calls hrun,
    order_purge l, ?_⟩
  · intro hash
    exact ⟨hvalid.contains_iff hash, insert_new_iff l hash⟩
  · rintro before r after hash rfl hin hfew
    exact contains_of_few hrun hin hfew

end

/-- Six hashes in a list for four, then a purge: fewer than three have come in after `[3]`. -/
theorem ring_retention_six : (([.insert [0], .insert [1], .insert [2], .insert [3], .insert [4],
    .insert [5], .purgeIfOverCap] : List Call).foldl (fun l call => call.run l) (new 4)).contains
      [3] = true := by
  obtain ⟨-, -, -, -, hkept⟩ := ring_retention (run_records (new 4) [.insert [0], .insert [1],
    .insert [2], .insert [3], .insert [4], .insert [5], .purgeIfOverCap])
  refine hkept (records (new 4) [.insert [0], .insert [1], .insert [2]]) _ _ [3] rfl ?_ ?_
  · decide +kernel
  · decide +kernel

end PacketHashList
end Reticulum
