import Reticulum.Rns.Transport.Counters
import Reticulum.Rns.Transport.TakeIn

/-!
# Announces that are refused

A refused announce leaves one trace, its hash in the hash list. That hash covers the low half of the
flags byte, but the ratchet flag, which decides where the signature lies in the body, is in the high
half: the same announce with that flag turned is refused, and the genuine one is then a duplicate.
-/

namespace Reticulum
namespace Transport

section
variable [CryptoLib]
variable {t t' : Transport} {i : IfaceId} {p : Packet} {now : Nat} {c : Counter}

/-- The counters that only `handle_announce` moves. -/
def Judges (c : Counter) : Prop :=
  c = .announceValidated ∨ c = .announceRejected ∨ c = .announcesQueued

omit [CryptoLib] in
theorem Judges.count_stats (hc : Judges c) {c' : Counter} (h : ¬ Judges c') (t : Transport) :
    (t.count c').stats c = t.stats c := by
  refine count_stats_of_ne ?_
  rintro rfl
  exact h hc

instance : DecidablePred Judges := fun c =>
  inferInstanceAs (Decidable (c = .announceValidated ∨ c = .announceRejected ∨
    c = .announcesQueued))

theorem seen_stats (hc : Judges c) (t : Transport) (p : Packet) :
    (t.seen p).stats c = t.stats c := by
  have hin : (t.count .inboundPackets).stats c = t.stats c := hc.count_stats (by decide) t
  exact hin

omit [CryptoLib] in
theorem Judges.notMem (hc : Judges c) {k : Handler} (hk : k ≠ .announce) : c ∉ k.counters := by
  cases k with
  | announce => exact absurd rfl hk
  | _ => rcases hc with rfl | rfl | rfl <;> decide

/-- An announce that is not taken in is at most counted as rejected. -/
theorem handleAnnounce_stats_of_accepts_none (ha : t.accepts p = none)
    (h : t.handleAnnounce i p now = .ok t') :
    t'.stats .announceRejected = t.stats .announceRejected +
        (if Identity.validateAnnounce p = none then 1 else 0) ∧
      ∀ c, Judges c → c ≠ .announceRejected → t'.stats c = t.stats c := by
  unfold handleAnnounce at h
  cases hv : Identity.validateAnnounce p with
  | none =>
    rw [hv] at h
    cases h
    exact ⟨by simp [count_stats], fun c _ hne => count_stats_of_ne hne⟩
  | some va =>
    rw [hv] at h
    simp only at h
    have hquiet : ∀ {c' : Counter}, ¬ Judges c' →
        .ok (t.count c') = (.ok t' : Except Exn Transport) →
        t'.stats .announceRejected = t.stats .announceRejected + 0 ∧
          ∀ c, Judges c → c ≠ .announceRejected → t'.stats c = t.stats c := by
      intro c' hc' heq
      cases heq
      exact ⟨Judges.count_stats (.inr (.inl rfl)) hc' t, fun c hc _ => hc.count_stats hc' t⟩
    split at h
    · exact hquiet (by decide) h
    split at h
    · exact hquiet (by decide) h
    split at h
    · exact hquiet (by decide) h
    · simp_all [accepts, Option.filter]

/-- Whether the announce counts as validated: it validates, and it is neither the node's own nor
blackholed, nor under another key than the one on record. -/
theorem handleAnnounce_stats (h : t.handleAnnounce i p now = .ok t') :
    t'.stats .announceValidated =
        t.stats .announceValidated + (if (t.accepts p).isSome then 1 else 0) ∧
      t'.stats .announceRejected =
        t.stats .announceRejected + if Identity.validateAnnounce p = none then 1 else 0 := by
  cases ha : t.accepts p with
  | some va =>
    have hv := (accepts_checks ha).1
    obtain ⟨s, hs, heq⟩ := handleAnnounce_takeIn i now ha
    cases heq.symm.trans h
    have h₁ := hs .announceValidated (by decide)
    have h₂ := hs .announceRejected (by decide)
    exact ⟨by simpa using h₁, by simpa [hv] using h₂⟩
  | none =>
    obtain ⟨hrejected, hothers⟩ := handleAnnounce_stats_of_accepts_none ha h
    exact ⟨hothers _ (.inl rfl) (by decide), hrejected⟩

/-- Only `handle_announce` judges announces, and only of a packet that is new. -/
theorem inbound_stats {wire : Bytes} (hc : Judges c) (h : t.inbound i wire now = .ok t') :
    t'.stats c = t.stats c ∨ ∃ p, arriving wire = some p ∧ t.hasSeen p = false ∧
      p.handler = .announce ∧ (t.seen p).handleAnnounce i p now = .ok t' := by
  have hin : (t.count .inboundPackets).stats c = t.stats c := hc.count_stats (by decide) t
  cases hw : arriving wire with
  | none =>
    left
    unfold arriving at hw
    simp only [inbound] at h
    split at h
    · cases h
      exact (hc.count_stats (by decide) _).trans hin
    · rw [if_neg ‹_›] at hw
      cases hp : Packet.fromWireBytes (bumpHops wire) with
      | error e =>
        obtain ⟨what, rfl⟩ := Packet.fromWireBytes_error hp
        rw [hp] at h
        cases h
        exact (hc.count_stats (by decide) _).trans hin
      | ok q => rw [hp] at hw; cases hw
  | some p =>
    cases hs : t.hasSeen p with
    | true =>
      left
      rw [inbound_of_arriving t i now hw, if_pos hs] at h
      cases h
      exact (hc.count_stats (by decide) _).trans hin
    | false =>
      rw [inbound_of_not_hasSeen hw hs] at h
      by_cases hk : p.handler = .announce
      · rw [dispatch_eq, hk] at h
        exact .inr ⟨p, rfl, hs, hk, h⟩
      · exact .inl ((dispatch_stats (hc.notMem hk) h).trans hin)

/-- The call counts one more `c`. -/
def Counts (c : Counter) (t : Transport) (i : IfaceId) (wire : Bytes) (now : Nat) : Prop :=
  ∃ t', t.step (.inbound i wire now) = .ok t' ∧ t'.stats c = t.stats c + 1

variable {wire : Bytes}

theorem Counts.accepts (h : Counts .announceValidated t i wire now)
    (hw : arriving wire = some p) : t.hasSeen p = false ∧ ∃ va, t.accepts p = some va := by
  obtain ⟨t', hstep, hcount⟩ := h
  rcases inbound_stats (t := { t with out := [] }) (.inl rfl) hstep with hsame | ⟨q, hq, hs, -, hh⟩
  · have hsame : t'.stats .announceValidated = t.stats .announceValidated := hsame
    omega
  · cases hw.symm.trans hq
    refine ⟨hs, ?_⟩
    have hstats : t'.stats .announceValidated = t.stats .announceValidated +
        if (t.accepts p).isSome then 1 else 0 := (handleAnnounce_stats hh).1
    cases ha : t.accepts p with
    | some va => exact ⟨va, rfl⟩
    | none =>
      rw [ha] at hstats
      simp only [Option.isSome_none, Bool.false_eq_true, ↓reduceIte] at hstats
      omega

theorem Counts.rejects (h : Counts .announceRejected t i wire now)
    (hw : arriving wire = some p) : t.hasSeen p = false ∧ p.handler = .announce ∧
      Identity.validateAnnounce p = none := by
  obtain ⟨t', hstep, hcount⟩ := h
  rcases inbound_stats (t := { t with out := [] }) (.inr (.inl rfl)) hstep with
    hsame | ⟨q, hq, hs, hk, hh⟩
  · have hsame : t'.stats .announceRejected = t.stats .announceRejected := hsame
    omega
  · cases hw.symm.trans hq
    refine ⟨hs, hk, ?_⟩
    have hstats : t'.stats .announceRejected = t.stats .announceRejected +
        if Identity.validateAnnounce p = none then 1 else 0 := (handleAnnounce_stats hh).2
    by_contra hv
    rw [if_neg hv] at hstats
    omega

/-- A new announce that is accepted counts as validated. -/
theorem counts_of_accepts {va : ValidatedAnnounce} (i : IfaceId) (now : Nat)
    (hw : arriving wire = some p) (hs : t.hasSeen p = false) (ha : t.accepts p = some va) :
    ∃ t', t.step (.inbound i wire now) = .ok t' ∧
      t'.stats .announceValidated = t.stats .announceValidated + 1 ∧
      t'.paths =
        ((t.learnedPaths va i p now).noteRandomBlob va.destinationHash va.randomHash).2 := by
  obtain ⟨body, hb⟩ := validateAnnounce_eq_some (accepts_checks ha).1
  have hk : p.handler = .announce := Packet.handler_eq_announce.mpr hb.packetType
  obtain ⟨s, hstats, heq⟩ := handleAnnounce_takeIn (t := seen { t with out := [] } p) i now ha
  refine ⟨_, (step_inbound_announce hw hs hk).trans heq, ?_, rfl⟩
  have hcount := hstats .announceValidated (by decide)
  rw [seen_stats (.inl rfl)] at hcount
  simpa using hcount

/-- After a refused announce, a genuine one is still taken in as it would have been, exactly when it
has another packet hash. -/
theorem validated_after_rejected {t t₁ t₂ : Transport} {i i' : IfaceId} {wire wire' : Bytes}
    {now now' : Nat} {p p' : Packet} (hw : arriving wire = some p)
    (hw' : arriving wire' = some p') (hv : Counts .announceValidated t i wire now)
    (hr : Counts .announceRejected t i' wire' now') (h₁ : t.step (.inbound i wire now) = .ok t₁)
    (h₂ : t.step (.inbound i' wire' now') = .ok t₂) :
    (Counts .announceValidated t₂ i wire now ∧
      ∀ t₃, t₂.step (.inbound i wire now) = .ok t₃ → t₃.paths = t₁.paths) ↔
      dedupHash p' ≠ dedupHash p := by
  obtain ⟨hs, va, ha⟩ := hv.accepts hw
  obtain ⟨hs', hk', hnone⟩ := hr.rejects hw'
  have hstep : t.step (.inbound i' wire' now') =
      .ok ((seen { t with out := [] } p').count .announceRejected) := by
    rw [step_inbound_announce hw' hs' hk']
    simp only [handleAnnounce, hnone]
  cases hstep.symm.trans h₂
  have hseen : hasSeen ((seen { t with out := [] } p').count .announceRejected) p =
      (decide (dedupHash p = dedupHash p') || t.hasSeen p) := contains_recorded t p' p
  constructor
  · rintro ⟨hv', -⟩ heq
    obtain ⟨hs₂, -⟩ := hv'.accepts hw
    rw [hs₂, decide_eq_true heq.symm, Bool.true_or] at hseen
    cases hseen
  · intro hne
    rw [hs, Bool.or_false, decide_eq_false (Ne.symm hne)] at hseen
    have ha₂ : accepts ((seen { t with out := [] } p').count .announceRejected) p = some va := ha
    obtain ⟨t₁', hstep₁, -, hpaths₁⟩ := counts_of_accepts i now hw hs ha
    cases hstep₁.symm.trans h₁
    obtain ⟨t₃, hstep₃, hcount₃, hpaths₃⟩ := counts_of_accepts i now hw hseen ha₂
    refine ⟨⟨t₃, hstep₃, hcount₃⟩, ?_⟩
    intro t₃' hstep₃'
    cases hstep₃.symm.trans hstep₃'
    rw [hpaths₃, hpaths₁]
    rfl

end

open Vectors
attribute [local instance] lib

/-- Alice's announce with one byte of its signature changed. -/
def forgedAnnounce : Bytes := aliceAnnounce.set 110 0

set_option maxRecDepth 100000 in
theorem forgedAnnounce_stats : (relay.steps [.registerInterface 0]).toOption.map (fun t =>
    (t.stats .announceValidated, t.stats .announceRejected,
      (t.step (.inbound 0 aliceAnnounce 1000)).toOption.map fun t' => t'.stats .announceValidated,
      (t.step (.inbound 0 forgedAnnounce 1000)).toOption.map
        fun t' => t'.stats .announceRejected)) =
    some (0, 0, some 1, some 1) := by
  decide +kernel

set_option maxRecDepth 100000 in
theorem forgedAnnounce_dedupHash : (arriving aliceAnnounce).bind (fun p =>
    (arriving forgedAnnounce).map fun p' => decide (dedupHash p' ≠ dedupHash p)) = some true := by
  decide +kernel

theorem validated_after_rejected_alice : ∃ t t₂, Reachable t ∧
    t.step (.inbound 0 forgedAnnounce 1000) = .ok t₂ ∧
    Counts .announceValidated t₂ 0 aliceAnnounce 1000 := by
  obtain ⟨t, -, ht, hf⟩ :=
    reachable_of_steps (reachable_new bob true fun _ => cfg) forgedAnnounce_stats
  simp only [Prod.mk.injEq] at hf
  obtain ⟨hv₀, hr₀, hv, hr⟩ := hf
  obtain ⟨t₁, h₁, hv⟩ := Option.map_eq_some_iff.mp hv
  obtain ⟨t₂, h₂, hr⟩ := Option.map_eq_some_iff.mp hr
  have h₁ := toOption_eq_some h₁
  have h₂ := toOption_eq_some h₂
  obtain ⟨p, hw, hp⟩ := Option.bind_eq_some_iff.mp forgedAnnounce_dedupHash
  obtain ⟨p', hw', hne⟩ := Option.map_eq_some_iff.mp hp
  have hcounts := (validated_after_rejected hw hw' ⟨t₁, h₁, by omega⟩ ⟨t₂, h₂, by omega⟩
    h₁ h₂).mpr (of_decide_eq_true hne)
  exact ⟨t, t₂, ht, h₂, hcounts.1⟩

/-- Alice's announce with the ratchet flag turned. -/
def turnedAnnounce : Bytes := aliceAnnounce.set 0 0x21

set_option maxRecDepth 100000 in
theorem turnedAnnounce_stats : (relay.steps [.registerInterface 0]).toOption.map (fun t =>
    (t.stats .announceValidated, t.stats .announceRejected,
      (t.step (.inbound 0 aliceAnnounce 1000)).toOption.map fun t' => t'.stats .announceValidated,
      (t.step (.inbound 0 turnedAnnounce 1000)).toOption.map fun t' =>
        (t'.stats .announceRejected, (t'.step (.inbound 0 aliceAnnounce 1000)).toOption.map
          fun t'' => t''.stats .announceValidated))) =
    some (0, 0, some 1, some (1, some 0)) := by
  decide +kernel

/-- The turned announce is refused, and the genuine one is then dropped as a duplicate. -/
theorem turnedAnnounce_suppresses : ¬ ∀ {t t₁ t₂ : Transport} {i i' : IfaceId}
    {wire wire' : Bytes} {now now' : Nat}, Reachable t → Counts .announceValidated t i wire now →
    Counts .announceRejected t i' wire' now' → t.step (.inbound i wire now) = .ok t₁ →
    t.step (.inbound i' wire' now') = .ok t₂ → Counts .announceValidated t₂ i wire now ∧
      ∀ t₃, t₂.step (.inbound i wire now) = .ok t₃ → t₃.paths = t₁.paths := by
  intro hgenuine
  obtain ⟨t, -, ht, hf⟩ :=
    reachable_of_steps (reachable_new bob true fun _ => cfg) turnedAnnounce_stats
  simp only [Prod.mk.injEq] at hf
  obtain ⟨hv₀, hr₀, hv, hr⟩ := hf
  obtain ⟨t₁, h₁, hv⟩ := Option.map_eq_some_iff.mp hv
  obtain ⟨t₂, h₂, hr⟩ := Option.map_eq_some_iff.mp hr
  obtain ⟨hr, hagain⟩ := Prod.mk.inj hr
  obtain ⟨t₃, h₃, hv₃⟩ := Option.map_eq_some_iff.mp hagain
  have h₁ := toOption_eq_some h₁
  have h₂ := toOption_eq_some h₂
  obtain ⟨⟨t₃', h₃', hcount⟩, -⟩ := hgenuine ht ⟨t₁, h₁, by omega⟩ ⟨t₂, h₂, by omega⟩ h₁ h₂
  cases (toOption_eq_some h₃).symm.trans h₃'
  omega

end Transport
end Reticulum
