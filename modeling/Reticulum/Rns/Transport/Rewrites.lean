import Reticulum.Rns.Transport.Line
import Mathlib.Logic.Relation

/-!
# What relays may rewrite

The hops bump and the three header conversions are all that a relay does to a packet it passes on.
The hashable part is the same after any of them, and tells two packets apart exactly by the fields
that none of them touches.
-/

namespace Reticulum
namespace Packet

/-- `q` is `p` after one rewrite that a relay makes, with the calls the relay makes for it. -/
inductive Rewritten (p : Packet) : Packet → Prop
  | bumpHops {q : Packet} (h : fromWireBytes (Reticulum.bumpHops p.wireBytes) = .ok q) :
    Rewritten p q
  | originatorToHeader2 {q : Packet} (transportId : Bytes)
    (h : p.originatorToHeader2 transportId = .ok q) : Rewritten p q
  | replaceTransportId {q : Packet} (newTransportId : Bytes)
    (h : p.replaceTransportId newTransportId = .ok q) : Rewritten p q
  | stripTransportIdToHeader1 {q : Packet} (h : p.stripTransportIdToHeader1 = .ok q) :
    Rewritten p q

variable {p q : Packet} {transportId : Bytes}

theorem of_originatorToHeader2 (h : p.originatorToHeader2 transportId = .ok q) :
    ∃ ht, q = p.asHeader2 transportId ht := by
  by_cases h1 : p.headerType = .header1
  · by_cases ht : transportId.length = transportIdLen
    · rw [originatorToHeader2_eq h1 ht] at h
      exact ⟨ht, (Except.ok.inj h).symm⟩
    · simp [originatorToHeader2, h1, ht] at h
      cases h
  · simp [originatorToHeader2, h1] at h
    cases h

theorem of_replaceTransportId (h : p.replaceTransportId transportId = .ok q) :
    ∃ h2 ht, q = p.withTransportId h2 transportId ht := by
  by_cases h2 : p.headerType = .header2
  · by_cases ht : transportId.length = transportIdLen
    · rw [replaceTransportId_eq h2 ht] at h
      exact ⟨h2, ht, (Except.ok.inj h).symm⟩
    · simp [replaceTransportId, h2, ht] at h
      cases h
  · simp [replaceTransportId, h2] at h
    cases h

theorem of_stripTransportIdToHeader1 (h : p.stripTransportIdToHeader1 = .ok q) :
    q = p.asHeader1 := by
  by_cases h2 : p.headerType = .header2
  · rw [stripTransportIdToHeader1_eq h2] at h
    exact (Except.ok.inj h).symm
  · simp [stripTransportIdToHeader1, h2] at h
    cases h

theorem Rewritten.hashablePart (h : Rewritten p q) : q.hashablePart = p.hashablePart := by
  cases h with
  | bumpHops h =>
    rw [bumpHops_wireBytes, fromWireBytes_wireBytes] at h
    cases h
    exact p.bumped_hashablePart
  | originatorToHeader2 transportId h =>
    obtain ⟨ht, rfl⟩ := of_originatorToHeader2 h
    exact hashablePart_eq_iff.mpr ⟨low_toHeader2Flags _, rfl, rfl, rfl⟩
  | replaceTransportId newTransportId h =>
    obtain ⟨h2, ht, rfl⟩ := of_replaceTransportId h
    exact hashablePart_eq_iff.mpr ⟨rfl, rfl, rfl, rfl⟩
  | stripTransportIdToHeader1 h =>
    obtain rfl := of_stripTransportIdToHeader1 h
    exact hashablePart_eq_iff.mpr ⟨low_toHeader1Flags _, rfl, rfl, rfl⟩

/-- No sequence of rewrites changes the hashable part; and two packets share it exactly if they have
the same types, destination, context and body. -/
theorem hashablePart_identifies :
    (∀ raw p q, fromWireBytes raw = .ok p → Relation.ReflTransGen Rewritten p q →
      q.hashablePart = p.hashablePart) ∧
    ∀ raw raw' p q, fromWireBytes raw = .ok p → fromWireBytes raw' = .ok q →
      (p.hashablePart = q.hashablePart ↔ p.flags &&& 0x0F = q.flags &&& 0x0F ∧
        p.destinationHash = q.destinationHash ∧ p.context = q.context ∧ p.data = q.data) := by
  constructor
  · intro raw p q _ hrun
    induction hrun with
    | refl => rfl
    | tail _ hstep ih => exact hstep.hashablePart.trans ih
  · intro raw raw' p q _ _
    exact hashablePart_eq_iff

/-- An announce without a body that one relay wraps and the next one unwraps. -/
theorem hashablePart_identifies_wrapped : ∃ p q r : Packet,
    p.originatorToHeader2 (List.replicate 16 9) = .ok q ∧ q.stripTransportIdToHeader1 = .ok r ∧
    q.wireBytes.length = 35 ∧ r.hashablePart = p.hashablePart := by
  let p : Packet := ofFields 0x21 3 [] (List.replicate 16 7) 0 [] (by decide) (by decide)
    (by decide)
  have hq := @originatorToHeader2_eq p (List.replicate 16 9) (by decide) (by decide)
  have hr := @stripTransportIdToHeader1_eq (p.asHeader2 (List.replicate 16 9) (by decide))
    (by decide)
  have hrun : Relation.ReflTransGen Rewritten p _ :=
    .tail (.tail .refl (.originatorToHeader2 _ hq)) (.stripTransportIdToHeader1 hr)
  obtain ⟨hsame, -⟩ := hashablePart_identifies
  exact ⟨p, _, _, hq, hr, by decide, hsame _ _ _ (fromWireBytes_wireBytes p) hrun⟩

end Packet
end Reticulum
