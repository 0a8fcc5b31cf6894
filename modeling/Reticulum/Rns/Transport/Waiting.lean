import Reticulum.Rns.Transport.Rebroadcast

/-!
# What waits for rebroadcast

The announce table holds one entry a destination, whose wire is an announce of that destination, so
what a tick hands over tells which entry it came from.
-/

namespace Reticulum

/-- The destination of the packet in a wire. -/
def destinationOf (wire : Bytes) : Option Bytes :=
  (Packet.fromWireBytes wire).toOption.map Packet.destinationHash

theorem destinationOf_wireBytes (p : Packet) :
    destinationOf p.wireBytes = some p.destinationHash := by
  rw [destinationOf, Packet.fromWireBytes_wireBytes]
  rfl

namespace Transport

section
variable [CryptoLib]
variable {t t' : Transport} {now : Nat}

/-! ### The announce table -/

/-- What the table holds for a destination, under its key, is an announce of that destination. -/
def TableSound (t : Transport) : Prop :=
  ∀ k e, t.announceTable.entries.lookup k = some e →
    k = keyOf e.destHash ∧ destinationOf e.announceWire = some e.destHash

variable {i : IfaceId} {p : Packet} {va : ValidatedAnnounce}

theorem destinationOf_queuedAnnounce (ha : t.accepts p = some va) :
    destinationOf (t.queuedAnnounce va i p now).announceWire = some va.destinationHash := by
  obtain ⟨body, hb⟩ := validateAnnounce_eq_some (accepts_checks ha).1
  obtain ⟨-, hdest, -⟩ :=
    Packet.hashablePart_eq_iff.mp (reissued_hashablePart t.localIdentity p)
  rw [hb.destinationHash, ← hdest]
  exact destinationOf_wireBytes _

theorem TableSound.step {a : Action} (hi : TableSound t) (h : t.step a = .ok t') :
    TableSound t' := by
  cases a with
  | inbound i wire now =>
    obtain ⟨-, ⟨htable, -⟩ | ⟨p, va, htakes, htable, -⟩⟩ := inbound_queue h
    · rw [TableSound, htable]
      exact hi
    · intro k e he
      rw [htable, AnnounceTable.put, Dict.lookup_insert_eq] at he
      split at he
      · rename_i hk
        cases he
        exact ⟨hk, destinationOf_queuedAnnounce htakes.accepts⟩
      · exact hi k e he
  | tick now =>
    obtain ⟨sch, s, f, n, o, -, rfl⟩ := tick_frame h
    intro k e he
    rw [AnnounceTable.popDue, Dict.lookup_retain, Option.filter_eq_some_iff] at he
    exact hi k e he.1
  | _ =>
    cases step_did h with
    | apart _ hk =>
      rw [TableSound, hk.announceTable]
      exact hi

theorem Reachable.tableSound (h : Reachable t) : TableSound t := by
  refine h.inv ?_ fun t a t' hi hs => hi.step hs
  intro id enabled cfg k e he
  cases he

end

end Transport
end Reticulum
