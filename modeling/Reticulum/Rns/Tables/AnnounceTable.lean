import Reticulum.Rns.Tables.PathTable

/-! # Announces waiting for rebroadcast (`tables/AnnounceTable`) -/

namespace Reticulum

structure AnnounceEntry where
  destHash : Bytes
  insertedMs : Nat
  retransmitAtMs : Nat
  retries : UInt8
  receivedFrom : Option IfaceId
  announceHops : UInt8
  announceWire : Bytes
deriving DecidableEq

structure AnnounceTable where
  entries : Dict HexString AnnounceEntry

namespace AnnounceTable

def empty : AnnounceTable := ⟨∅⟩

/-- `put`, keyed by the entry's own `dest_hash`. -/
def put (t : AnnounceTable) (entry : AnnounceEntry) : AnnounceTable :=
  ⟨t.entries.insert (keyOf entry.destHash) entry⟩

def get (t : AnnounceTable) (destHash : Bytes) : Option AnnounceEntry :=
  t.entries.lookup (keyOf destHash)

/-- `pop_due`: the due entries in the map's iteration order, which the source leaves open, and the
table without them. -/
def popDue (t : AnnounceTable) (nowMs : Nat) : List AnnounceEntry × AnnounceTable :=
  (t.entries.values.filter fun e => e.retransmitAtMs ≤ nowMs,
    ⟨t.entries.retain fun e => !decide (e.retransmitAtMs ≤ nowMs)⟩)

@[simp] theorem get_empty (d : Bytes) : empty.get d = none := rfl

theorem get_put (t : AnnounceTable) (d : Bytes) (e : AnnounceEntry) :
    (t.put e).get d = if d = e.destHash then some e else t.get d := by
  simp only [put, get, Dict.lookup_insert_eq, keyOf_inj]

end AnnounceTable
end Reticulum
