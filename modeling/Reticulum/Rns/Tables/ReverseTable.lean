import Reticulum.Rns.Tables.PathTable

/-! # Return routes for proofs (`tables/ReverseTable`) -/

namespace Reticulum

structure ReverseEntry where
  packetHash : Bytes
  receivedIf : Option IfaceId
  outboundIf : Option IfaceId
  timestampMs : Nat
deriving DecidableEq

structure ReverseTable where
  entries : Dict HexString ReverseEntry

namespace ReverseTable

def reverseTimeoutMs : Nat := 30 * 1000

def empty : ReverseTable := ⟨∅⟩

def put (t : ReverseTable) (entry : ReverseEntry) : ReverseTable :=
  ⟨t.entries.insert (keyOf entry.packetHash) entry⟩

def get (t : ReverseTable) (packetHash : Bytes) : Option ReverseEntry :=
  t.entries.lookup (keyOf packetHash)

def pop (t : ReverseTable) (packetHash : Bytes) : Option ReverseEntry × ReverseTable :=
  (t.get packetHash, ⟨t.entries.erase (keyOf packetHash)⟩)

def evictAged (t : ReverseTable) (nowMs : Nat) : Nat × ReverseTable :=
  let kept : ReverseTable :=
    ⟨t.entries.retain fun e => !decide (e.timestampMs + reverseTimeoutMs ≤ nowMs)⟩
  (t.entries.values.length - kept.entries.values.length, kept)

@[simp] theorem get_empty (h : Bytes) : empty.get h = none := rfl

theorem get_put (t : ReverseTable) (h : Bytes) (e : ReverseEntry) :
    (t.put e).get h = if h = e.packetHash then some e else t.get h := by
  simp only [put, get, Dict.lookup_insert_eq, keyOf_inj]

theorem get_pop (t : ReverseTable) (h h' : Bytes) :
    (t.pop h).2.get h' = if h' = h then none else t.get h' := by
  simp only [pop, get, Dict.lookup_erase_eq, keyOf_inj]

theorem get_evictAged (t : ReverseTable) (now : Nat) (h : Bytes) :
    (t.evictAged now).2.get h =
      (t.get h).filter fun e => !decide (e.timestampMs + reverseTimeoutMs ≤ now) :=
  Dict.lookup_retain _ _ _

end ReverseTable
end Reticulum
