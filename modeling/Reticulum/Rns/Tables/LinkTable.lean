import Reticulum.Rns.Tables.PathTable

/-! # Relayed links (`tables/LinkTable`) -/

namespace Reticulum

structure LinkEntry where
  linkId : Bytes
  timestampMs : Nat
  nextHopId : Bytes
  nhIf : Option IfaceId
  remHops : UInt8
  rcvdIf : Option IfaceId
  takenHops : UInt8
  dstHash : Bytes
  validated : Bool
  proofTimeoutMs : Nat
  lastActivityMs : Nat
deriving DecidableEq

structure LinkTable where
  entries : Dict HexString LinkEntry

namespace LinkTable

def empty : LinkTable := ⟨∅⟩

def put (t : LinkTable) (entry : LinkEntry) : LinkTable :=
  ⟨t.entries.insert (keyOf entry.linkId) entry⟩

def get (t : LinkTable) (linkId : Bytes) : Option LinkEntry := t.entries.lookup (keyOf linkId)

/-- A write through the pointer of `get_mut`. -/
def getMut (t : LinkTable) (linkId : Bytes) (f : LinkEntry → LinkEntry) : LinkTable :=
  ⟨t.entries.modify (keyOf linkId) f⟩

def remove (t : LinkTable) (linkId : Bytes) : Bool × LinkTable :=
  ((t.get linkId).isSome, ⟨t.entries.erase (keyOf linkId)⟩)

def unproven (nowMs : Nat) (e : LinkEntry) : Bool :=
  !e.validated && e.proofTimeoutMs != 0 && decide (e.proofTimeoutMs ≤ nowMs)

/-- `evict_unproven`: the number removed, and the table without those entries. -/
def evictUnproven (t : LinkTable) (nowMs : Nat) : Nat × LinkTable :=
  let kept : LinkTable := ⟨t.entries.retain fun e => !unproven nowMs e⟩
  (t.entries.values.length - kept.entries.values.length, kept)

def stale (cutoff : Nat) (e : LinkEntry) : Bool := e.validated && decide (e.lastActivityMs ≤ cutoff)

def evictStale (t : LinkTable) (nowMs staleThresholdMs : Nat) : Nat × LinkTable :=
  if nowMs < staleThresholdMs then (0, t)
  else
    let cutoff := nowMs - staleThresholdMs
    let kept : LinkTable := ⟨t.entries.retain fun e => !stale cutoff e⟩
    (t.entries.values.length - kept.entries.values.length, kept)

@[simp] theorem get_empty (id : Bytes) : empty.get id = none := rfl

theorem get_put (t : LinkTable) (id : Bytes) (e : LinkEntry) :
    (t.put e).get id = if id = e.linkId then some e else t.get id := by
  simp only [put, get, Dict.lookup_insert_eq, keyOf_inj]

theorem get_getMut (t : LinkTable) (id id' : Bytes) (f : LinkEntry → LinkEntry) :
    (t.getMut id f).get id' = if id' = id then (t.get id).map f else t.get id' := by
  simp only [getMut, get, Dict.lookup_modify, keyOf_inj]

theorem get_getMut_of {t : LinkTable} {id id' : Bytes} {e : LinkEntry} (f : LinkEntry → LinkEntry)
    (he : t.get id = some e) (hid : id' = id) : (t.getMut id' f).get id = some (f e) := by
  rw [get_getMut, if_pos hid.symm, hid, he]
  rfl

theorem get_remove (t : LinkTable) (id id' : Bytes) :
    (t.remove id).2.get id' = if id' = id then none else t.get id' := by
  simp only [remove, get, Dict.lookup_erase_eq, keyOf_inj]

theorem get_evictUnproven (t : LinkTable) (now : Nat) (id : Bytes) :
    (t.evictUnproven now).2.get id = (t.get id).filter fun e => !unproven now e :=
  Dict.lookup_retain _ _ _

theorem get_evictStale (t : LinkTable) (now threshold : Nat) (id : Bytes) :
    (t.evictStale now threshold).2.get id =
      (t.get id).filter fun e => !(decide (threshold ≤ now) && stale (now - threshold) e) := by
  unfold evictStale
  split
  · have : ¬ threshold ≤ now := by omega
    cases h : t.get id <;> simp [this, Option.filter]
  · have : threshold ≤ now := by omega
    simp only [this, decide_true, Bool.true_and]
    exact Dict.lookup_retain _ _ _

end LinkTable
end Reticulum
