import Reticulum.Rns.Transport.Counters
import Reticulum.Rns.Transport.Run
import Reticulum.Rns.Vectors

/-!
# Packets that are refused

A wire that `inbound` drops with one of its refusal counters leaves the routing state as it was,
however far the handler got with it.
-/

namespace Reticulum

/-- The counters of the ways in which `inbound` refuses a wire. -/
def Counter.refuses : Counter → Bool
  | .ifacUnsupportedDrops | .parseFailures | .dedupDrops | .announceRejected | .selfAnnounceDrops
  | .blackholeDrops | .collisionsRejected | .proofOrphaned | .proofWrongInterface
  | .linkProofsUnknownLink | .linkProofsWrongIface | .linkProofsInvalid | .linkDataUnknownLink
  | .linkDataUnvalidated => true
  | _ => false

namespace Transport

/-- The call left the routing state alone, and nothing of it was seen outside. -/
structure Untouched (t t' : Transport) : Prop where
  paths : t'.paths = t.paths
  knownDestinations : t'.knownDestinations = t.knownDestinations
  announceTable : t'.announceTable = t.announceTable
  reverseTable : t'.reverseTable = t.reverseTable
  linkTable : t'.linkTable = t.linkTable
  prTags : t'.prTags = t.prTags
  out : t'.out = []

section
variable [CryptoLib]
variable {t t' : Transport} {i : IfaceId} {p : Packet} {now : Nat} {c : Counter}

omit [CryptoLib] in
theorem count_stats_of_refuses (hc : c.refuses = true) {c' : Counter} (hc' : c'.refuses = false)
    (t : Transport) : (t.count c').stats c = t.stats c := by
  refine count_stats_of_ne ?_
  rintro rfl
  rw [hc] at hc'
  cases hc'

omit [CryptoLib] in
theorem notMem_of_refuses (hc : c.refuses = true) {cs : List Counter}
    (hcs : ∀ c' ∈ cs, c'.refuses = false) : c ∉ cs := by
  intro hmem
  rw [hcs c hmem] at hc
  cases hc

omit [CryptoLib] in
theorem handleProofForward_stats_of_refuses (hc : c.refuses = true) {e : ReverseEntry}
    (hr : t.proofRoute i p = some e) : (t.handleProofForward i p).stats c = t.stats c := by
  obtain ⟨he, hi⟩ := Option.filter_eq_some_iff.mp hr
  have hin := count_stats_of_refuses hc (show Counter.proofInbound.refuses = false from rfl) t
  simp only [decide_eq_true_eq] at hi
  simp only [handleProofForward, count_reverseTable, he, hi, ne_eq, not_true_eq_false, ↓reduceIte]
  split
  · exact hin
  · exact (count_stats_of_refuses hc rfl _).trans hin

theorem handleLinkProofForward_stats_of_refuses (hc : c.refuses = true) {e : LinkEntry}
    {f : IfaceId} (hr : t.provenLink i p = some (e, f)) :
    (t.handleLinkProofForward i p now).stats c = t.stats c := by
  obtain ⟨e', he', hr⟩ := Option.bind_eq_some_iff.mp hr
  obtain ⟨f', hf, hr⟩ := Option.map_eq_some_iff.mp hr
  cases hr
  obtain ⟨he, hi⟩ := Option.filter_eq_some_iff.mp he'
  simp only [decide_eq_true_eq] at hi
  simp only [handleLinkProofForward, he, hi.1, hi.2, hf, ne_eq, not_true_eq_false, ↓reduceIte,
    Bool.not_true, Bool.false_eq_true]
  exact count_stats_of_refuses hc rfl _

omit [CryptoLib] in
theorem handleLinkDataForward_stats_of_refuses (hc : c.refuses = true) {e : LinkEntry}
    {f : IfaceId} (hr : t.linkRoute i p = some (e, f)) :
    (t.handleLinkDataForward i p now).stats c = t.stats c := by
  obtain ⟨e', he', hr⟩ := Option.bind_eq_some_iff.mp hr
  obtain ⟨f', hf, hr⟩ := Option.map_eq_some_iff.mp hr
  cases hr
  obtain ⟨he, hi⟩ := Option.filter_eq_some_iff.mp he'
  simp only [handleLinkDataForward, he, hi, hf, Bool.not_true, Bool.false_eq_true, ↓reduceIte]
  split
  · exact (count_stats_of_refuses hc rfl _).trans (count_stats_of_refuses hc rfl _)
  · exact count_stats_of_refuses hc rfl _

theorem seen_stats_of_refuses (hc : c.refuses = true) (t : Transport) (p : Packet) :
    (t.seen p).stats c = t.stats c :=
  count_stats_of_refuses hc rfl t

/-- A handler that refuses the packet ignores it. -/
theorem ignores_of_refuses (hc : c.refuses = true) (h : t.dispatch i p now = .ok t')
    (hcount : t'.stats c ≠ t.stats c) : t.Ignores i p := by
  rw [dispatch_eq] at h
  -- path requests, DATA and link requests that are not used are let go without being refused
  have hpath : c ∉ Handler.pathRequest.counters := notMem_of_refuses hc (by decide)
  have hdata : c ∉ Handler.data.counters := notMem_of_refuses hc (by decide)
  have hrequest : c ∉ Handler.linkRequest.counters := notMem_of_refuses hc (by decide)
  unfold Ignores
  cases hk : p.handler with
  | announce =>
    rw [hk] at h
    cases ha : t.accepts p with
    | none => rfl
    | some va =>
      have hsame := handleAnnounce_stats_of_accepts ha (notMem_of_refuses hc (by decide)) h
      exact absurd hsame hcount
  | pathRequest =>
    rw [hk] at h
    exact absurd (handlePathRequest_stats hpath h) hcount
  | linkData =>
    rw [hk] at h
    cases h
    cases hr : t.linkRoute i p with
    | none => rfl
    | some ef => exact absurd (handleLinkDataForward_stats_of_refuses hc hr) hcount
  | data =>
    rw [hk] at h
    exact absurd (handleDataForward_stats hdata h) hcount
  | linkRequest =>
    rw [hk] at h
    exact absurd (handleLinkRequestForward_stats hrequest h) hcount
  | linkProof =>
    rw [hk] at h
    cases h
    cases hr : t.provenLink i p with
    | none => rfl
    | some ef => exact absurd (handleLinkProofForward_stats_of_refuses hc hr) hcount
  | proof =>
    rw [hk] at h
    cases h
    cases hr : t.proofRoute i p with
    | none => rfl
    | some e => exact absurd (handleProofForward_stats_of_refuses hc hr) hcount

/-- What is ignored changes nothing but counters and the hash list. -/
theorem Handled.eq_of_ignores (hh : Handled t i p now t') (hi : t.Ignores i p) :
    ∃ s, t' = { t with stats := s, hashlist := t.recorded p, out := [] } := by
  unfold Ignores at hi
  cases hh with
  | ignored _ => exact ⟨_, rfl⟩
  | announce hk ha _ =>
    rw [hk, ha] at hi
    cases hi
  | pathRequest hk _ =>
    rw [hk] at hi
    cases hi
  | data hk hr =>
    rw [hk, hr] at hi
    cases hi
  | linkRequest hk hr =>
    rw [hk, hr] at hi
    cases hi
  | proof hk hr =>
    rw [hk, hr] at hi
    cases hi
  | linkProof hk hr =>
    rw [hk, hr] at hi
    cases hi
  | linkData hk hr =>
    rw [hk, hr] at hi
    cases hi

/-- A refused wire leaves the routing state alone. -/
theorem refused_untouched {wire : Bytes} (h : t.step (.inbound i wire now) = .ok t')
    (hc : c.refuses = true) (hcount : t'.stats c ≠ t.stats c) : Untouched t t' := by
  cases step_did h with
  | apart ha _ => cases ha
  | dropped _ => exact ⟨rfl, rfl, rfl, rfl, rfl, rfl, rfl⟩
  | @took _ _ _ p _ hw hs hh =>
    rw [step_inbound_eq hw hs] at h
    have hseen := seen_stats_of_refuses hc { t with out := [] } p
    have hignores : t.Ignores i p := by
      refine ignores_of_refuses (t := seen { t with out := [] } p) hc h ?_
      rw [hseen]
      exact hcount
    obtain ⟨s, rfl⟩ := hh.eq_of_ignores hignores
    exact ⟨rfl, rfl, rfl, rfl, rfl, rfl, rfl⟩

end

open Vectors
attribute [local instance] lib

set_option maxRecDepth 100000 in
theorem heardAlice_again :
    ((relay.steps heardAlice).toOption.bind fun t =>
      (t.step (.inbound 0 aliceAnnounce 1001)).toOption.map fun t' =>
        (t.stats .dedupDrops, t'.stats .dedupDrops)) = some (0, 1) := by
  decide +kernel

/-- Alice's announce heard again. -/
theorem refused_untouched_alice : ∃ t t',
    relay.steps heardAlice = .ok t ∧ t.step (.inbound 0 aliceAnnounce 1001) = .ok t' ∧
    t'.stats .dedupDrops ≠ t.stats .dedupDrops ∧ Untouched t t' := by
  obtain ⟨t, ht, h⟩ := Option.bind_eq_some_iff.mp heardAlice_again
  obtain ⟨t', ht', hcount⟩ := Option.map_eq_some_iff.mp h
  have hstep := toOption_eq_some ht'
  obtain ⟨hbefore, hafter⟩ := Prod.mk.inj hcount
  have hne : t'.stats .dedupDrops ≠ t.stats .dedupDrops := by
    rw [hbefore, hafter]
    decide
  exact ⟨t, t', toOption_eq_some ht, hstep, hne, refused_untouched hstep rfl hne⟩

end Transport
end Reticulum
