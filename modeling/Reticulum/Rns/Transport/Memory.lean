import Reticulum.Rns.Transport.Links
import Reticulum.Rns.Transport.TakeIn
import Reticulum.Rns.Vectors

/-!
# What a node remembers

Every table entry is owed to a packet the node heard: the packet that made it or, for a link, the
last one it carried. A tick drops what is older than the lifetime of its kind. So no table is longer
than the list of the packets of its kind heard within that lifetime, whatever else is on the air.
-/

namespace Reticulum

/-- What an entry of a table stands for. A link counts as another thing once it is proven. -/
inductive Memory where
  | key | path | waiting | reverse | unproven | proven
deriving DecidableEq, Repr

namespace Memory

/-- How long a tick lets an entry be after the packet it is owed to, if not for ever. -/
def life : Memory → Option Nat
  | .key => none
  | .path => some (60 * 60 * 1000)
  | .waiting => some 0
  | .reverse => some ReverseTable.reverseTimeoutMs
  | .unproven => some (60 * 1000)
  | .proven => some Transport.linkStaleThresholdMs

/-- Whether a tick at `now` lets an entry be that is owed to a packet heard at `τ`. -/
def lives (m : Memory) (now τ : Nat) : Bool := m.life.all fun l => decide (now < τ + l)

theorem lives_of_lt {m : Memory} {now τ l : Nat} (hl : m.life = some l) (h : now < τ + l) :
    m.lives now τ = true := by
  rw [lives, hl, Option.all_some]
  exact decide_eq_true h

/-- The packets to which an entry may be owed. -/
def madeBy : Memory → Handler → Bool
  | .key, .announce | .path, .announce | .waiting, .announce => true
  | .reverse, .data => true
  | .unproven, .linkRequest => true
  | .proven, .linkProof | .proven, .linkData => true
  | _, _ => false

end Memory

section
variable [CryptoLib]

/-- The key under which a packet is remembered. -/
def Packet.tableKey (p : Packet) : HexString :=
  match p.handler with
  | .data => keyOf (proofHash p)
  | .linkRequest => keyOf (linkIdFromLrPacket p)
  | _ => keyOf p.destinationHash

/-- The key and the time of the entry of kind `m` that may be owed to a call. -/
def Action.makes (m : Memory) : Action → Option (HexString × Nat)
  | .inbound _ wire now =>
    ((arriving wire).filter fun p => m.madeBy p.handler).map fun p => (p.tableKey, now)
  | _ => none

/-- Whether a tick at `now` lets the entry of kind `m` be that is owed to the call. -/
def Action.lasts (m : Memory) (now : Nat) (a : Action) : Bool :=
  (a.makes m).any fun made => m.lives now made.2

namespace Transport

omit [CryptoLib] in
/-- The number of entries of a kind. -/
def remembered (t : Transport) : Memory → Nat
  | .key => t.knownDestinations.values.length
  | .path => t.paths.size
  | .waiting => t.announceTable.entries.values.length
  | .reverse => t.reverseTable.entries.values.length
  | .unproven => t.linkTable.entries.values.countP fun e => !e.validated
  | .proven => t.linkTable.entries.values.countP fun e => e.validated

/-- Every entry is owed to something in `H`. -/
structure OwedTo (t : Transport) (H : Memory → HexString → Nat → Prop) : Prop where
  keys : t.knownDestinations.All fun k _ => ∃ τ, H .key k τ
  paths : t.paths.entries.All fun k e =>
    e.expiresMs = e.timestampMs + 60 * 60 * 1000 ∧ H .path k e.timestampMs
  waiting : t.announceTable.entries.All fun k e => H .waiting k e.retransmitAtMs
  returns : t.reverseTable.entries.All fun k e => H .reverse k e.timestampMs
  unproven : t.linkTable.entries.All fun k e => e.validated = false →
    e.proofTimeoutMs = e.timestampMs + 60 * 1000 ∧ H .unproven k e.timestampMs
  proven : t.linkTable.entries.All fun k e => e.validated = true → H .proven k e.lastActivityMs

namespace OwedTo
variable {t : Transport} {H H' : Memory → HexString → Nat → Prop}

omit [CryptoLib] in
theorem mono (h : t.OwedTo H) (hH : ∀ m k τ, H m k τ → H' m k τ) : t.OwedTo H' where
  keys := h.keys.mono fun _ _ ⟨τ, hτ⟩ => ⟨τ, hH _ _ _ hτ⟩
  paths := h.paths.mono fun _ _ ⟨hx, hτ⟩ => ⟨hx, hH _ _ _ hτ⟩
  waiting := h.waiting.mono fun _ _ => hH _ _ _
  returns := h.returns.mono fun _ _ => hH _ _ _
  unproven := h.unproven.mono fun _ _ hτ hv => ⟨(hτ hv).1, hH _ _ _ (hτ hv).2⟩
  proven := h.proven.mono fun _ _ hτ hv => hH _ _ _ (hτ hv)

omit [CryptoLib] in
theorem new (id : Identity) (enabled : Bool) (cfg : IfaceId → Interface.Config) :
    (Transport.new id enabled cfg).OwedTo H :=
  ⟨.empty, .empty, .empty, .empty, .empty, .empty⟩

omit [CryptoLib] in
theorem of_keeps {t' : Transport} (h : t.OwedTo H) (hk : Keeps t t') : t'.OwedTo H where
  keys := hk.knownDestinations ▸ h.keys
  paths := hk.paths ▸ h.paths
  waiting := hk.announceTable ▸ h.waiting
  returns := hk.reverseTable ▸ h.returns
  unproven := hk.linkTable ▸ h.unproven
  proven := hk.linkTable ▸ h.proven

end OwedTo

omit [CryptoLib] in
theorem all_noteRandomBlob {P : HexString → PathEntry → Prop} {paths : PathTable}
    (h : paths.entries.All P) (hP : ∀ k e b, P k e → P k { e with randomBlobs := b })
    (d blob : Bytes) : (paths.noteRandomBlob d blob).2.entries.All P := by
  unfold PathTable.noteRandomBlob
  cases he : paths.get d with
  | none => exact h
  | some e =>
    simp only
    split
    · exact h
    · exact h.insert (hP _ _ _ (h _ _ he))

omit [CryptoLib] in
theorem all_evictStale {P : HexString → LinkEntry → Prop} {links : LinkTable} {now threshold : Nat}
    (h : links.entries.All P) : (links.evictStale now threshold).2.entries.All fun k e =>
      P k e ∧ (e.validated = true → now < e.lastActivityMs + threshold) := by
  unfold LinkTable.evictStale
  split
  · exact h.mono fun _ _ hP => ⟨hP, fun _ => by omega⟩
  · intro k e he
    obtain ⟨hP, hkept⟩ := h.retain _ k e he
    refine ⟨hP, fun hv => ?_⟩
    simp only [LinkTable.stale, hv, Bool.true_and, Bool.not_eq_true', decide_eq_false_iff_not]
      at hkept
    omega

omit [CryptoLib] in
theorem lt_of_not_unproven {e : LinkEntry} {now : Nat} (h : (!LinkTable.unproven now e) = true)
    (hv : e.validated = false) (hne : e.proofTimeoutMs ≠ 0) : now < e.proofTimeoutMs := by
  simpa [LinkTable.unproven, hv, hne] using h

theorem tableKey_of_handler {p : Packet} (hd : p.handler ≠ .data) (hr : p.handler ≠ .linkRequest) :
    p.tableKey = keyOf p.destinationHash := by
  unfold Packet.tableKey
  split
  · exact absurd ‹_› hd
  · exact absurd ‹_› hr
  · rfl

section
variable {t t' : Transport} {i : IfaceId} {wire : Bytes} {p : Packet} {now : Nat}
  {H : Memory → HexString → Nat → Prop}

theorem makes_of_arriving {m : Memory} (hw : arriving wire = some p)
    (hm : m.madeBy p.handler = true) :
    (Action.inbound i wire now).makes m = some (p.tableKey, now) := by
  simp [Action.makes, hw, hm, Option.filter]

/-- What a handler leaves is owed to the packet, or was there before. -/
theorem owedTo_of_handled (h : t.OwedTo H) (hh : Handled t i p now t')
    (hp : ∀ m, m.madeBy p.handler = true → H m p.tableKey now) : t'.OwedTo H := by
  cases hh with
  | ignored _ => exact ⟨h.keys, h.paths, h.waiting, h.returns, h.unproven, h.proven⟩
  | pathRequest _ _ => exact ⟨h.keys, h.paths, h.waiting, h.returns, h.unproven, h.proven⟩
  | @announce va _ _ hk ha _ =>
    have hkey : p.tableKey = keyOf va.destinationHash := by
      obtain ⟨body, hb⟩ := validateAnnounce_eq_some (accepts_checks ha).1
      rw [tableKey_of_handler (by simp [hk]) (by simp [hk]), hb.destinationHash]
    rw [hkey, hk] at hp
    have hlearned : (t.learnedPaths va i p now).entries.All fun k e =>
        e.expiresMs = e.timestampMs + 60 * 60 * 1000 ∧ H .path k e.timestampMs := by
      unfold learnedPaths
      split
      · exact h.paths.insert ⟨rfl, hp .path rfl⟩
      · exact h.paths
    have hwaiting : (if t.transportEnabled ∧ p.context ≠ contextPathResponse ∧
          ((t.learnedPaths va i p now).noteRandomBlob va.destinationHash va.randomHash).1
        then t.announceTable.put (t.queuedAnnounce va i p now)
        else t.announceTable).entries.All fun k e => H .waiting k e.retransmitAtMs := by
      split
      · exact h.waiting.insert (hp .waiting rfl)
      · exact h.waiting
    exact ⟨h.keys.insert ⟨now, hp .key rfl⟩, all_noteRandomBlob hlearned (fun _ _ _ hP => hP) _ _,
      hwaiting, h.returns, h.unproven, h.proven⟩
  | data hk _ =>
    have hkey : p.tableKey = keyOf (proofHash p) := by simp [Packet.tableKey, hk]
    rw [hkey, hk] at hp
    exact ⟨h.keys, h.paths, h.waiting, h.returns.insert (hp .reverse rfl), h.unproven, h.proven⟩
  | linkRequest hk _ =>
    have hkey : p.tableKey = keyOf (linkIdFromLrPacket p) := by simp [Packet.tableKey, hk]
    rw [hkey, hk] at hp
    exact ⟨h.keys, h.paths, h.waiting, h.returns,
      h.unproven.insert fun _ => ⟨rfl, hp .unproven rfl⟩, h.proven.insert fun hv => by cases hv⟩
  | proof _ _ =>
    exact ⟨h.keys, h.paths, h.waiting, h.returns.erase _, h.unproven, h.proven⟩
  | linkProof hk _ =>
    rw [tableKey_of_handler (by simp [hk]) (by simp [hk]), hk] at hp
    exact ⟨h.keys, h.paths, h.waiting, h.returns,
      h.unproven.modify fun _ _ (hv : true = false) => absurd hv (by simp),
      h.proven.modify fun _ _ _ => hp .proven rfl⟩
  | @linkData e _ _ hk hr =>
    rw [tableKey_of_handler (by simp [hk]) (by simp [hk]), hk] at hp
    obtain ⟨he, hv, -⟩ := linkRoute_eq_some hr
    -- only a proven link carries data, so nothing unproven is touched
    have hunproven := h.unproven.modify (k := keyOf p.destinationHash)
      (f := fun e => { e with lastActivityMs := now }) fun e' he' hv' => by
        cases he.symm.trans he'
        exact absurd (hv.symm.trans hv') (by simp)
    have hproven := h.proven.modify (k := keyOf p.destinationHash)
      (f := fun e => { e with lastActivityMs := now }) fun _ _ _ => hp .proven rfl
    refine ⟨h.keys, h.paths, h.waiting, h.returns, ?_, ?_⟩
    · unfold relayedLinks
      simp only
      split
      · exact hunproven.erase _
      · exact hunproven
    · unfold relayedLinks
      simp only
      split
      · exact hproven.erase _
      · exact hproven

/-- What a tick leaves was there before, and is not older than its lifetime. -/
theorem owedTo_of_tick (h : t.OwedTo H) (ht : t.step (.tick now) = .ok t') :
    t'.OwedTo fun m k τ => H m k τ ∧ m.lives now τ = true := by
  cases step_did ht with
  | apart ha _ => cases ha
  | ticked _ =>
    refine ⟨h.keys.mono fun _ _ ⟨τ, hτ⟩ => ⟨τ, hτ, rfl⟩, ?_, ?_, ?_, ?_, ?_⟩
    · intro k e he
      obtain ⟨⟨hx, hτ⟩, hkept⟩ := h.paths.retain _ k e he
      rw [Bool.not_eq_true', decide_eq_false_iff_not, hx] at hkept
      exact ⟨hx, hτ, Memory.lives_of_lt rfl (Nat.not_le.mp hkept)⟩
    · intro k e he
      obtain ⟨hτ, hkept⟩ := h.waiting.retain _ k e he
      rw [Bool.not_eq_true', decide_eq_false_iff_not] at hkept
      exact ⟨hτ, Memory.lives_of_lt rfl (Nat.not_le.mp hkept)⟩
    · intro k e he
      obtain ⟨hτ, hkept⟩ := h.returns.retain _ k e he
      rw [Bool.not_eq_true', decide_eq_false_iff_not] at hkept
      exact ⟨hτ, Memory.lives_of_lt rfl (Nat.not_le.mp hkept)⟩
    · intro k e he hv
      obtain ⟨⟨hτ, hkept⟩, -⟩ := all_evictStale
        (h.unproven.retain fun e => !LinkTable.unproven now e) k e he
      obtain ⟨hx, hτ⟩ := hτ hv
      have hlt := lt_of_not_unproven hkept hv (by rw [hx]; omega)
      rw [hx] at hlt
      exact ⟨hx, hτ, Memory.lives_of_lt rfl hlt⟩
    · intro k e he hv
      obtain ⟨⟨hτ, -⟩, hkept⟩ := all_evictStale
        (h.proven.retain fun e => !LinkTable.unproven now e) k e he
      exact ⟨hτ hv, Memory.lives_of_lt rfl (hkept hv)⟩

/-- What a call leaves is owed to it, or was there before. -/
theorem owedTo_of_step {a : Action} (h : t.OwedTo H) (hs : t.step a = .ok t') :
    t'.OwedTo fun m k τ => H m k τ ∨ a.makes m = some (k, τ) := by
  have hold : t.OwedTo fun m k τ => H m k τ ∨ a.makes m = some (k, τ) :=
    h.mono fun _ _ _ => .inl
  cases step_did hs with
  | apart _ hk => exact hold.of_keeps hk
  | dropped _ =>
    exact ⟨hold.keys, hold.paths, hold.waiting, hold.returns, hold.unproven, hold.proven⟩
  | took hw _ hh => exact owedTo_of_handled hold hh fun m hm => .inr (makes_of_arriving hw hm)
  | ticked _ => exact (owedTo_of_tick h hs).mono fun _ _ _ hτ => .inl hτ.1

theorem owedTo_of_run {rs : List (Rec Transport Action)} (h : t.OwedTo H)
    (hrun : Run Steps t rs t') :
    t'.OwedTo fun m k τ => H m k τ ∨ ∃ r ∈ rs, r.act.makes m = some (k, τ) := by
  induction hrun with
  | nil => exact h.mono fun _ _ _ => .inl
  | snoc _ hs ih =>
    refine (owedTo_of_step ih hs).mono ?_
    rintro m k τ ((hH | ⟨r, hr, hm⟩) | hm)
    · exact .inl hH
    · exact .inr ⟨r, List.mem_append_left _ hr, hm⟩
    · exact .inr ⟨_, List.mem_append_right _ (List.mem_singleton_self _), hm⟩

/-- There are not more entries of a kind than calls to which one can be owed. -/
theorem remembered_le {m : Memory} {rs : List (Rec Transport Action)}
    {C : Rec Transport Action → Bool} (h : t.OwedTo H)
    (hH : ∀ k τ, H m k τ → ∃ r ∈ rs, C r = true ∧ r.act.makes m = some (k, τ)) :
    t.remembered m ≤ rs.countP C := by
  have hkey : ∀ k τ, H m k τ →
      ∃ r ∈ rs, C r = true ∧ (r.act.makes m).map Prod.fst = some k := by
    intro k τ hτ
    obtain ⟨r, hr, hC, hm⟩ := hH k τ hτ
    exact ⟨r, hr, hC, by rw [hm, Option.map_some]⟩
  cases m with
  | key =>
    rw [remembered, ← List.countP_true]
    exact Dict.All.countP_le fun k v hv _ => hkey k _ (h.keys k v hv).choose_spec
  | path =>
    rw [remembered, PathTable.size, ← List.countP_true]
    exact Dict.All.countP_le fun k v hv _ => hkey k _ (h.paths k v hv).2
  | waiting =>
    rw [remembered, ← List.countP_true]
    exact Dict.All.countP_le fun k v hv _ => hkey k _ (h.waiting k v hv)
  | reverse =>
    rw [remembered, ← List.countP_true]
    exact Dict.All.countP_le fun k v hv _ => hkey k _ (h.returns k v hv)
  | unproven =>
    exact Dict.All.countP_le fun k v hv hq => hkey k _ (h.unproven k v hv (by simpa using hq)).2
  | proven =>
    exact Dict.All.countP_le fun k v hv hq => hkey k _ (h.proven k v hv hq)

/-- When the calls were made to which an entry of kind `m` can be owed. -/
def times (as : List Action) (m : Memory) : List Nat :=
  as.filterMap fun a => (a.makes m).map Prod.snd

theorem countP_lasts (as : List Action) (m : Memory) (now : Nat) :
    as.countP (fun a => a.lasts m now) = (times as m).countP (m.lives now) := by
  rw [times, List.countP_filterMap]
  refine List.countP_congr ?_
  intro a _
  cases ha : a.makes m <;> simp [Action.lasts, ha]

/-- At any time after a tick, what the node holds of each kind is at most what it has heard of that
kind within the lifetime before the tick, and since. -/
theorem remembers_recent {id : Identity} {enabled : Bool} {cfg : IfaceId → Interface.Config}
    {before after : List (Rec Transport Action)} {s s' : Transport}
    (hrun : Run Steps (new id enabled cfg) (before ++ ⟨s, .tick now, s'⟩ :: after) t) (m : Memory) :
    t.remembered m ≤ before.countP (fun r => r.act.lasts m now) +
      after.countP fun r => (r.act.makes m).isSome := by
  obtain ⟨hbefore, htick, hafter⟩ := hrun.split_at
  have hnew : (new id enabled cfg).OwedTo fun _ _ _ => False := .new id enabled cfg
  have howed := owedTo_of_run (owedTo_of_tick (owedTo_of_run hnew hbefore) htick) hafter
  let recent := before.filter fun r => r.act.lasts m now
  calc t.remembered m
    _ ≤ (recent ++ after).countP fun r => (r.act.makes m).isSome := by
      refine remembered_le howed ?_
      rintro k τ (⟨hf | ⟨r, hr, hm⟩, hl⟩ | ⟨r, hr, hm⟩)
      · exact hf.elim
      · have hlasts : r.act.lasts m now = true := by simp [Action.lasts, hm, hl]
        exact ⟨r, List.mem_append_left _ (List.mem_filter.mpr ⟨hr, hlasts⟩), by simp [hm], hm⟩
      · exact ⟨r, List.mem_append_right _ hr, by simp [hm], hm⟩
    _ ≤ before.countP (fun r => r.act.lasts m now) +
        after.countP fun r => (r.act.makes m).isSome := by
      rw [List.countP_append]
      refine Nat.add_le_add_right ?_ _
      rw [List.countP_eq_length_filter (l := before)]
      exact List.countP_le_length

end

end Transport
end

namespace Transport
open Vectors
attribute [local instance] lib

def linkUsed : List Action := linkUp ++ [.inbound 0 keepalive 303000]

set_option maxRecDepth 100000 in
theorem linkUsed_times : [Memory.path, .unproven, .proven].map (times linkUsed) =
    [[1000], [2000], [3000, 303000]] := by
  decide +kernel

/-- Long after its proof, a link may be left for the sake of a keepalive. -/
theorem remembers_recent_linkUsed : ∃ s t, relay.steps linkUsed = .ok s ∧
    s.step (.tick 800000) = .ok t ∧ t.remembered .path ≤ 1 ∧ t.remembered .unproven = 0 ∧
    t.remembered .proven ≤ 1 := by
  have htimes := linkUsed_times
  obtain ⟨s₀, hs₀, -, hstate⟩ :=
    reachable_of_steps (reachable_new bob true fun _ => Vectors.cfg) linkUp_state
  obtain ⟨t, ht⟩ := steps_of_isSome (Prod.mk.inj (Prod.mk.inj hstate).2).2
  obtain ⟨s, hs, ht⟩ := steps_cons ht
  obtain ⟨t', ht', ht⟩ := steps_cons ht
  obtain rfl : t' = t := Except.ok.inj ht
  have hused : relay.steps linkUsed = .ok s := steps_concat hs₀ hs
  obtain ⟨before, hrun, hacts⟩ := run_of_steps hused
  have hbound : ∀ m, t'.remembered m ≤ (times linkUsed m).countP (m.lives 800000) := by
    intro m
    have hrun' : Run Steps relay (before ++ ⟨s, .tick 800000, t'⟩ :: []) t' := hrun.snoc ht'
    have hle := remembers_recent hrun' m
    rw [List.countP_nil, Nat.add_zero] at hle
    rw [← countP_lasts, ← hacts, List.countP_map]
    exact hle
  simp only [List.map_cons, List.map_nil, List.cons.injEq, and_true] at htimes
  obtain ⟨hpath, hunproven, hproven⟩ := htimes
  refine ⟨s, t', hused, ht', ?_, ?_, ?_⟩
  · exact (hbound .path).trans (by rw [hpath]; rfl)
  · exact Nat.le_zero.mp ((hbound .unproven).trans (by rw [hunproven]; decide))
  · exact (hbound .proven).trans (by rw [hproven]; decide)

end Transport
end Reticulum
