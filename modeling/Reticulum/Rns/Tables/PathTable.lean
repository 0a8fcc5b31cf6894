import Reticulum.Lib.Dict
import Reticulum.Rns.Interface

/-! # Path entries (`tables/PathTable`) -/

namespace Reticulum

structure PathEntry where
  timestampMs : Nat
  nextHop : Bytes
  hops : UInt8
  expiresMs : Nat
  randomBlobs : List Bytes
  receivingInterface : Option IfaceId
  announceWire : Bytes
deriving DecidableEq

structure PathTable where
  entries : Dict HexString PathEntry

namespace PathTable

def maxRandomBlobs : Nat := 32

def empty : PathTable := ⟨∅⟩

def put (t : PathTable) (destHash : Bytes) (entry : PathEntry) : PathTable :=
  ⟨t.entries.insert (keyOf destHash) entry⟩

def get (t : PathTable) (destHash : Bytes) : Option PathEntry := t.entries.lookup (keyOf destHash)

/-- The window after `note_random_blob` pushed `blob` and slid it. -/
def pushBlob (blobs : List Bytes) (blob : Bytes) : List Bytes :=
  let pushed := blobs ++ [blob]
  if pushed.length > maxRandomBlobs then pushed.drop 1 else pushed

/-- `note_random_blob`: whether the blob is new, and the table with it recorded. -/
def noteRandomBlob (t : PathTable) (destHash blob : Bytes) : Bool × PathTable :=
  match t.get destHash with
  | none => (false, t)
  | some entry =>
    if blob ∈ entry.randomBlobs then (false, t)
    else (true, t.put destHash { entry with randomBlobs := pushBlob entry.randomBlobs blob })

def size (t : PathTable) : Nat := t.entries.values.length

/-- `evict_expired`: the number removed, and the table without the expired entries. -/
def evictExpired (t : PathTable) (nowMs : Nat) : Nat × PathTable :=
  let kept : PathTable := ⟨t.entries.retain fun e => !decide (e.expiresMs ≤ nowMs)⟩
  (t.entries.values.length - kept.entries.values.length, kept)

@[simp] theorem get_empty (d : Bytes) : empty.get d = none := rfl

theorem get_put (t : PathTable) (d d' : Bytes) (e : PathEntry) :
    (t.put d e).get d' = if d' = d then some e else t.get d' := by
  simp only [put, get, Dict.lookup_insert_eq, keyOf_inj]

theorem get_noteRandomBlob (t : PathTable) (d d' blob : Bytes) :
    (t.noteRandomBlob d blob).2.get d' =
      if d' = d then (t.get d).map fun e =>
        if blob ∈ e.randomBlobs then e
        else { e with randomBlobs := pushBlob e.randomBlobs blob }
      else t.get d' := by
  cases h : t.get d with
  | none =>
    simp only [noteRandomBlob, h, Option.map_none]
    split
    · subst d'; exact h
    · rfl
  | some e =>
    simp only [noteRandomBlob, h, Option.map_some]
    by_cases hb : blob ∈ e.randomBlobs
    · simp only [hb, ↓reduceIte]
      split
      · subst d'; exact h
      · rfl
    · simp only [hb, ↓reduceIte, get_put]

theorem get_evictExpired (t : PathTable) (now : Nat) (d : Bytes) :
    (t.evictExpired now).2.get d = (t.get d).filter fun e => !decide (e.expiresMs ≤ now) :=
  Dict.lookup_retain _ _ _

end PathTable

namespace PathEntry

/-- What `note_random_blob` makes of the entry it finds. -/
def noted (e : PathEntry) (blob : Bytes) : PathEntry :=
  if blob ∈ e.randomBlobs then e
  else { e with randomBlobs := PathTable.pushBlob e.randomBlobs blob }

end PathEntry
end Reticulum
