import Reticulum.Rns.Transport.Counters
import Reticulum.Rns.Transport.Responses
import Reticulum.Rns.Transport.Retention

/-!
# Path requests are acted on once

A request is known by its target and its tag, whichever of the two layouts it comes in. The ring of
tags keeps a pair at least until 16001 others have come in after it.
-/

namespace Reticulum

section
variable {body target tag transportId : Bytes} {k k' : Bytes × Bytes}

end

namespace Transport

section
variable [CryptoLib]

/-- The counters of what is done for a request. -/
def actCounters : List Counter :=
  [.pathRequestsAnswered, .pathRequestsForwarded, .pathRequestsUnanswered]

/-- Nothing was sent, and nothing was counted as answered, forwarded or unanswered. -/
structure Idle (t t' : Transport) : Prop where
  out : t'.out = t.out
  stats : ∀ c ∈ actCounters, t'.stats c = t.stats c

variable {t t' : Transport} {i : IfaceId} {p : Packet}

omit [CryptoLib] in
theorem Idle.count (c : Counter) (hc : c ∉ actCounters) (t : Transport) : Idle t (t.count c) := by
  refine ⟨rfl, ?_⟩
  intro c' hc'
  refine count_stats_of_ne ?_
  rintro rfl
  exact hc hc'

omit [CryptoLib] in
theorem Idle.trans {t'' : Transport} (h : Idle t t') (h' : Idle t' t'') : Idle t t'' :=
  ⟨h'.out.trans h.out, fun c hc => (h'.stats c hc).trans (h.stats c hc)⟩

/-- The call sent something, or counted a request as answered, forwarded or unanswered. -/
def Acts (r : Rec Transport Action) : Prop :=
  r.post.out ≠ [] ∨ ∃ c ∈ actCounters, r.post.stats c ≠ r.pre.stats c

section
variable {id₀ : Identity} {enabled : Bool} {cfg : IfaceId → Interface.Config}
  {rs before between after : List (Rec Transport Action)} {r r' : Rec Transport Action}
  {k : Bytes × Bytes}

end

end

open Vectors
attribute [local instance] lib

end Transport
end Reticulum
