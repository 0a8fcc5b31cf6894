import Mathlib.Tactic.Linarith
import Reticulum.Rns.Transport.Ledger
import Reticulum.Rns.Transport.Rebroadcast
import Reticulum.Rns.Transport.Receipts
import Reticulum.Rns.Transport.Routes

/-!
# The counters balance

What is booked together stays balanced over any run: a packet that came in has at most one outcome,
each forward is counted where it is sent, and no counter ever goes back.
-/

namespace Reticulum

def Action.isInbound : Action → Bool
  | .inbound _ _ _ => true
  | _ => false

namespace Transport
section
variable [CryptoLib] {t t' : Transport} {i : IfaceId} {now : Nat}

/-- What holds of the counters `s` when each kind of transmission was tagged `n` times. -/
structure Balanced (s : Counter → Nat) (n : TxKind → Nat) : Prop where
  inbound : s .ifacUnsupportedDrops + s .parseFailures + s .dedupDrops + s .announceRejected +
    s .selfAnnounceDrops + s .blackholeDrops + s .collisionsRejected + s .announceValidated +
    s .pathRequestsTagless + s .pathRequestsReceived + s .dataInbound + s .proofInbound +
    s .linkRequestsForwarded + s .linkProofsUnknownLink + s .linkProofsWrongIface +
    s .linkProofsInvalid + s .linkProofsForwarded + s .linkDataUnknownLink +
    s .linkDataUnvalidated + s .linkDataForwarded ≤ s .inboundPackets
  pathRequests : s .pathRequestsReceived = s .pathRequestsDeduped + s .pathRequestsLocalNoSeed +
    s .pathRequestsAnswered + s .pathRequestsForwarded + s .pathRequestsUnanswered
  ownAnswers : s .pathRequestsLocalAnswered ≤ s .pathRequestsAnswered
  proofs : s .proofInbound = s .proofOrphaned + s .proofWrongInterface + s .proofForwarded
  data : s .dataForwardedHeader2 + s .dataForwardedHeader1 ≤ s .dataInbound
  arrived : s .dataLocalArrived = 0
  kept : s .pathReplacementRejected ≤ s .announceValidated
  queued : s .announcesQueued ≤ s .announceValidated
  closed : s .linkCloseObserved ≤ s .linkDataForwarded
  dataTags : n .dataForward = s .dataForwardedHeader2 + s .dataForwardedHeader1
  proofTags : n .proofForward = s .proofForwarded
  linkTags : n .linkForward =
    s .linkRequestsForwarded + s .linkProofsForwarded + s .linkDataForwarded

namespace Balanced
variable {s s' : Counter → Nat} {n n' : TxKind → Nat}

omit [CryptoLib] in
theorem add (h : Balanced s n) (h' : Balanced s' n') :
    Balanced (fun c => s c + s' c) (fun k => n k + n' k) := by
  constructor
  · linarith only [h.inbound, h'.inbound]
  · linarith only [h.pathRequests, h'.pathRequests]
  · linarith only [h.ownAnswers, h'.ownAnswers]
  · linarith only [h.proofs, h'.proofs]
  · linarith only [h.data, h'.data]
  · linarith only [h.arrived, h'.arrived]
  · linarith only [h.kept, h'.kept]
  · linarith only [h.queued, h'.queued]
  · linarith only [h.closed, h'.closed]
  · linarith only [h.dataTags, h'.dataTags]
  · linarith only [h.proofTags, h'.proofTags]
  · linarith only [h.linkTags, h'.linkTags]

omit [CryptoLib] in
theorem of_books {paths : PathTable} {returns : ReverseTable} {k : Handler} {cs : List Counter}
    {ks : List TxKind} (h : Books paths returns k cs ks)
    (hpaths : ∀ d e, paths.get d = some e → e.hops ≠ 0)
    (hreturns : ∀ h e, returns.get h = some e → e.receivedIf ≠ none) :
    Balanced (.inboundPackets :: cs).count ks.count := by
  have hresp : ∀ {ks : List TxKind} {k : TxKind}, (∀ k ∈ ks, k = .pathResponse) →
      k ≠ .pathResponse → ks.count k = 0 :=
    fun hk hne => List.count_eq_zero.mpr fun hmem => hne (hk _ hmem)
  cases h with
  | refused hc =>
    simp only [List.mem_cons, List.not_mem_nil, or_false] at hc
    rcases hc with rfl | rfl | rfl | rfl <;> constructor <;> decide
  | takenIn kept queued n =>
    cases kept <;> cases queued <;> constructor <;> simp [List.count_replicate]
  | unanswered hc =>
    simp only [List.mem_cons, List.not_mem_nil, or_false] at hc
    rcases hc with rfl | rfl | rfl <;> constructor <;> decide
  | answeredOwn hk => constructor <;> simp [hresp hk]
  | answered hk => constructor <;> simp [hresp hk]
  | passedOn n => constructor <;> simp [List.count_replicate]
  | arrived he h0 => exact absurd h0 (hpaths _ _ he)
  | relayed hc => rcases hc with rfl | rfl <;> constructor <;> decide
  | proofRefused hc => rcases hc with rfl | rfl <;> constructor <;> decide
  | proofUnsent he hr => exact absurd hr (hreturns _ _ he)
  | linkProofRefused hc =>
    simp only [List.mem_cons, List.not_mem_nil, or_false] at hc
    rcases hc with rfl | rfl | rfl <;> constructor <;> decide
  | linkDataRefused hc => rcases hc with rfl | rfl <;> constructor <;> decide
  | linkDataRelayed closes => cases closes <;> constructor <;> decide
  | _ => constructor <;> decide

end Balanced
/-- Reverse entries name the interface the DATA came in on. -/
def ReturnsKnown (t : Transport) : Prop :=
  ∀ h e, t.reverseTable.get h = some e → e.receivedIf ≠ none

theorem Reachable.returnsKnown (h : Reachable t) : ReturnsKnown t := by
  refine h.inv ?_ ?_
  · intro id enabled cfg h e he
    cases he
  · intro t a t' hi hstep h e he
    rcases step_reverse hstep he with hold | ⟨i, wire, now, p, o, w, -, -, -, -, -, rfl⟩
    · exact hi h e hold
    · exact Option.some_ne_none i

theorem Entry.balanced {a : Action} {cs : List Counter} {ks : List TxKind} (h : Entry t a cs ks)
    (ht : Reachable t) : Balanced cs.count ks.count := by
  cases h with
  | dropped hc =>
    simp only [List.mem_cons, List.not_mem_nil, or_false] at hc
    rcases hc with rfl | rfl | rfl <;> constructor <;> decide
  | handled _ h =>
    refine .of_books h ?_ ht.returnsKnown
    intro d e he h0
    have hone := (ht.pathInv d e he).2.1
    rw [h0] at hone
    exact absurd hone (by decide)
  | ticked m => constructor <;> simp [List.count_replicate]
  | apart _ hk =>
    have hnone : ∀ k, k ≠ .ownAnnounce → k ≠ .pathResponse → ks.count k = 0 := by
      intro k hown hresp
      refine List.count_eq_zero.mpr fun hmem => ?_
      rcases hk k hmem with rfl | rfl
      · exact hown rfl
      · exact hresp rfl
    constructor <;> simp [hnone]

/-- How often the tx observer was given the tag `k`. -/
def tags (k : TxKind) (rs : List (Rec Transport Action)) : Nat :=
  (rs.map fun r => r.post.kinds.count k).sum

theorem balanced_of_run {id : Identity} {enabled : Bool} {cfg : IfaceId → Interface.Config}
    {rs : List (Rec Transport Action)} (hrun : Run Steps (new id enabled cfg) rs t) :
    Balanced t.stats fun k => tags k rs := by
  induction hrun with
  | nil => constructor <;> simp [new, tags]
  | @snoc rs t t' a hrun hstep ih =>
    obtain ⟨cs, ks, hentry, hposts⟩ := step_entered hstep
    have hone := hentry.balanced ((reachable_new id enabled cfg).run hrun)
    have hstats : t'.stats = fun c => t.stats c + cs.count c := funext hposts.stats
    have htags : (fun k => tags k (rs ++ [⟨t, a, t'⟩])) = fun k => tags k rs + ks.count k := by
      funext k
      have hkinds : t'.kinds = ks := hposts.kinds
      simp [tags, hkinds]
    rw [hstats, htags]
    exact ih.add hone

/-! ### Rebroadcasts -/

/-- Only a tick rebroadcasts. -/
theorem Entry.not_rebroadcast {a : Action} {cs : List Counter} {ks : List TxKind}
    (h : Entry t a cs ks) (ha : ∀ now, a ≠ .tick now) :
    cs.count .announcesRebroadcast = 0 ∧ ks.count .rebroadcast = 0 := by
  cases h with
  | dropped hc =>
    simp only [List.mem_cons, List.not_mem_nil, or_false] at hc
    rcases hc with rfl | rfl | rfl <;> decide
  | handled _ h =>
    refine ⟨?_, h.not_rebroadcast⟩
    rw [List.count_cons_of_ne (by decide)]
    refine h.not_counted ?_
    generalize Packet.handler _ = k
    cases k <;> decide
  | ticked m => exact absurd rfl (ha _)
  | apart _ hk =>
    refine ⟨rfl, List.count_eq_zero.mpr fun hmem => ?_⟩
    rcases hk _ hmem with h | h <;> cases h

theorem Entry.inbound {a : Action} {cs : List Counter} {ks : List TxKind} (h : Entry t a cs ks) :
    cs.count .inboundPackets = if a.isInbound then 1 else 0 := by
  cases h with
  | dropped hc =>
    simp only [List.mem_cons, List.not_mem_nil, or_false] at hc
    rcases hc with rfl | rfl | rfl <;> rfl
  | handled _ h =>
    rw [List.count_cons_self, h.not_counted]
    · rfl
    · generalize Packet.handler _ = k
      cases k <;> decide
  | ticked m => simp [List.count_replicate, Action.isInbound]
  | @apart a ks ha _ =>
    cases a with
    | inbound i wire now => cases ha
    | _ => rfl

/-- What is rebroadcast was queued, and is no longer waiting. -/
theorem rebroadcast_le_queued_step {a : Action} (h : t.step a = .ok t')
    (hi : t.stats .announcesRebroadcast + t.announceTable.entries.values.length ≤
      t.stats .announcesQueued) :
    t'.stats .announcesRebroadcast + t'.announceTable.entries.values.length ≤
      t'.stats .announcesQueued := by
  obtain ⟨cs, ks, hentry, hposts⟩ := step_entered h
  have hrebroadcast : t'.stats .announcesRebroadcast =
    t.stats .announcesRebroadcast + cs.count .announcesRebroadcast := hposts.stats _
  have hqueued : t'.stats .announcesQueued = t.stats .announcesQueued + cs.count .announcesQueued :=
    hposts.stats _
  cases a with
  | inbound i wire now =>
    have hnone := (hentry.not_rebroadcast (by simp)).1
    obtain ⟨-, ⟨htable, -⟩ | ⟨p, va, -, htable, hone⟩⟩ := inbound_queue h
    · rw [htable]
      omega
    · have hlen := Dict.countP_values_insert (fun _ => true) (keyOf va.destinationHash)
        (t.queuedAnnounce va i p now) t.announceTable.entries
      simp only [List.countP_true, if_true] at hlen
      have hput : t'.announceTable.entries = AList.insert (keyOf va.destinationHash)
          (t.queuedAnnounce va i p now) t.announceTable.entries := by
        rw [htable]
        rfl
      rw [hput]
      omega
  | tick now =>
    have hlen := Dict.countP_values_retain (fun _ => true)
      (fun e : AnnounceEntry => decide (e.retransmitAtMs ≤ now)) t.announceTable.entries
    simp only [List.countP_true] at hlen
    obtain ⟨-, hcount, -⟩ := tick_spec h
    obtain ⟨sch, s, f, n, o, -, heq⟩ := tick_frame h
    have htable : t'.announceTable = (t.announceTable.popDue now).2 := by
      rw [heq]
    rw [hcount, htable, AnnounceTable.popDue]
    dsimp only
    omega
  | _ =>
    have hnone := (hentry.not_rebroadcast (by simp)).1
    cases step_did h with
    | apart _ hk =>
      rw [hk.announceTable]
      omega

theorem inbound_counted {t₀ : Transport} {rs : List (Rec Transport Action)}
    (hrun : Run Steps t₀ rs t) :
    t.stats .inboundPackets = t₀.stats .inboundPackets + rs.countP (fun r => r.act.isInbound) := by
  induction hrun with
  | nil => rfl
  | snoc _ hstep ih =>
    obtain ⟨cs, ks, hentry, hposts⟩ := step_entered hstep
    rw [hposts.stats, hentry.inbound, List.countP_append, List.countP_singleton, ← Nat.add_assoc]
    exact congrArg (· + _) ih

/-- The call takes in a packet of a link, DATA or another, and sends it on. -/
def relaysLinkData (r : Rec Transport Action) : Bool :=
  match r.act with
  | .inbound _ wire _ =>
    (arriving wire).any (·.handler = .linkData) && r.post.kinds.contains .linkForward
  | _ => false

theorem step_linkDataForwarded {a : Action} (h : t.step a = .ok t') :
    t'.stats .linkDataForwarded =
      t.stats .linkDataForwarded + if relaysLinkData ⟨t, a, t'⟩ then 1 else 0 := by
  obtain ⟨cs, ks, hentry, hposts⟩ := step_entered h
  have hkinds : t'.kinds = ks := hposts.kinds
  refine (hposts.stats _).trans ?_
  congr 1
  rw [relaysLinkData, hkinds]
  cases hentry with
  | dropped hc =>
    simp only [List.mem_cons, List.not_mem_nil, or_false] at hc
    rcases hc with rfl | rfl | rfl <;> simp
  | @handled i wire now p cs ks hw h =>
    rw [List.count_cons_of_ne (by decide)]
    simp only [hw, Option.any_some]
    by_cases hk : p.handler = .linkData
    · rw [hk] at h
      cases h with
      | linkDataRefused hc => rcases hc with rfl | rfl <;> simp
      | linkDataElsewhere => simp
      | linkDataRelayed closes => cases closes <;> simp [hk]
    · rw [h.not_counted]
      · simp [hk]
      · generalize p.handler = k at hk
        cases k with
        | linkData => exact absurd rfl hk
        | _ => decide
  | ticked m => simp [List.count_replicate]
  | @apart a ks ha _ =>
    cases a with
    | inbound i wire now => cases ha
    | _ => simp

theorem linkData_counted {t₀ : Transport} {rs : List (Rec Transport Action)}
    (hrun : Run Steps t₀ rs t) :
    t.stats .linkDataForwarded = t₀.stats .linkDataForwarded + rs.countP relaysLinkData := by
  induction hrun with
  | nil => rfl
  | snoc _ hstep ih =>
    rw [step_linkDataForwarded hstep, ih, List.countP_append, List.countP_singleton, Nat.add_assoc]

/-- With `n` interfaces each announce counted as rebroadcast has been tagged `n` times. -/
theorem rebroadcast_tags {t₀ : Transport} {rs : List (Rec Transport Action)} {n : Nat}
    (hrun : Run Steps t₀ rs t)
    (hn : ∀ r ∈ rs, ∀ now, r.act = .tick now → r.pre.interfaces.length = n) :
    t.stats .announcesRebroadcast * n =
      t₀.stats .announcesRebroadcast * n + tags .rebroadcast rs := by
  refine hrun.total (f := fun t => t.stats .announcesRebroadcast * n)
    (w := fun r => r.post.kinds.count .rebroadcast) hn ?_
  intro u a u' hstep hlen
  obtain ⟨cs, ks, hentry, hposts⟩ := step_entered hstep
  have hkinds : u'.kinds = ks := hposts.kinds
  dsimp only
  rw [hposts.stats, hkinds, Nat.add_mul]
  congr 1
  cases a with
  | tick now =>
    cases hentry with
    | ticked m => simp [List.count_replicate, hlen now rfl]
    | apart ha _ => cases ha
  | _ =>
    obtain ⟨hc, hk⟩ := hentry.not_rebroadcast (by simp)
    rw [hc, hk, Nat.zero_mul]

/-- In every run of a fresh node the counters balance: each packet that came in has at most one
outcome, each path request and each proof exactly one, what is forwarded is counted, by kind, where
the tx observer is told of it, and on `n` interfaces each announce counted as rebroadcast has been
tagged `n` times and was queued before. -/
theorem ledger_balanced {id : Identity} {enabled : Bool} {cfg : IfaceId → Interface.Config}
    {rs : List (Rec Transport Action)} (hrun : Run Steps (new id enabled cfg) rs t) :
    Balanced t.stats (fun k => tags k rs) ∧
    t.stats .inboundPackets = rs.countP (fun r => r.act.isInbound) ∧
    t.stats .announcesRebroadcast + t.announceTable.entries.values.length ≤
      t.stats .announcesQueued ∧
    ∀ n, (∀ r ∈ rs, ∀ now, r.act = .tick now → r.pre.interfaces.length = n) →
      tags .rebroadcast rs = t.stats .announcesRebroadcast * n := by
  refine ⟨balanced_of_run hrun, ?_, ?_, ?_⟩
  · have hin := inbound_counted hrun
    rwa [show (new id enabled cfg).stats .inboundPackets = 0 from rfl, Nat.zero_add] at hin
  · exact hrun.inv (I := fun t => t.stats .announcesRebroadcast +
      t.announceTable.entries.values.length ≤ t.stats .announcesQueued) le_rfl
      fun u a u' hu h => rebroadcast_le_queued_step h hu
  · intro n hn
    have htags := rebroadcast_tags hrun hn
    rw [show (new id enabled cfg).stats .announcesRebroadcast = 0 from rfl, Nat.zero_mul,
      Nat.zero_add] at htags
    exact htags.symm

end
end Transport

namespace Transport
open Vectors
attribute [local instance] lib

set_option maxRecDepth 100000 in
theorem linkUp_ticked : (relay.steps (linkUp ++ [.tick 3001])).toOption.map (fun t =>
    [.linkRequestsForwarded, .linkProofsForwarded, .linkDataForwarded, .announcesRebroadcast].map
      t.stats) = some [1, 1, 0, 1] := by
  decide +kernel

theorem ledger_balanced_linkUp : ∃ rs t, Run Steps relay rs t ∧ tags .linkForward rs = 2 ∧
    t.stats .announcesRebroadcast = 1 ∧ t.stats .announcesQueued ≥ 1 ∧
    t.stats .inboundPackets = 3 := by
  obtain ⟨t, hsteps, -, hstats⟩ :=
    reachable_of_steps (reachable_new bob true fun _ => cfg) linkUp_ticked
  obtain ⟨rs, hrun, hacts⟩ := run_of_steps hsteps
  obtain ⟨hbalanced, hin, hqueued, -⟩ := ledger_balanced hrun
  simp only [List.map_cons, List.map_nil, List.cons.injEq, and_true] at hstats
  obtain ⟨hrequests, hproofs, hdata, hrebroadcast⟩ := hstats
  refine ⟨rs, t, hrun, ?_, hrebroadcast, ?_, ?_⟩
  · rw [hbalanced.linkTags, hrequests, hproofs, hdata]
  · omega
  · have hcount : rs.countP (fun r => r.act.isInbound) =
        (rs.map Rec.act).countP Action.isInbound := by
      rw [List.countP_map]
      rfl
    rw [hin, hcount, hacts]
    decide

end Transport
end Reticulum
