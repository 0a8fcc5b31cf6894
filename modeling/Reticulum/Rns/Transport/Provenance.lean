import Reticulum.Rns.Transport.EndToEnd
import Reticulum.Rns.Transport.LoopFree
import Reticulum.Rns.Transport.Stocks

/-!
# Routes are traces of announces

In a network of nodes every path entry comes from an announce that was injected, or built by the
node it is for, and was taken in and sent on by one node after the other. The entry's hop count is
the length of this trail and its next hop the last node on it. The trail is a walk: a node may
occur on it twice.
-/

namespace Reticulum

section
variable [CryptoLib] {ν μ : Type}

namespace Transport

abbrev NetRec (ν μ : Type) := Rec (Net ν μ Transport Bytes) (Net.Act ν μ Bytes Action)

/-- The packet came onto the medium from outside, or from a node with a destination that built
it. -/
inductive Origin (medium : ν → IfaceId → μ) (rs : List (NetRec ν μ)) (q : Packet) : μ → Prop
  | injected {r : NetRec ν μ} {m : μ} (hr : r ∈ rs) (ha : r.act = .inject m q.wireBytes) :
    Origin medium rs q m
  | own {r : NetRec ν μ} {n : ν} {a : Action} {i : IfaceId} (hr : r ∈ rs) (ha : r.act = .call n a)
    (hb : (r.pre.node n).Builds q.wireBytes)
    (hs : (i, q.wireBytes) ∈ (r.post.node n).transmissions) : Origin medium rs q (medium n i)

/-- The node takes the announce in that has arrived as `q`. -/
def TakesIn (t : Transport) (q : Packet) : Prop :=
  t.hasSeen q.bumped = false ∧ (t.accepts q.bumped).isSome

/-- The forms in which a node sends on an announce it has taken in. -/
inductive PassesOn (id : Identity) (q : Packet) : Packet → Prop
  | rebroadcast : PassesOn id q (reissued id q.bumped)
  | response : PassesOn id q ((reissued id q.bumped).withContext contextPathResponse)

/-- The announce that was `q₀` where it came from is on the medium as `q`, after the nodes `via`,
the last one first, have taken it in and sent it on in turn. -/
inductive Trail (medium : ν → IfaceId → μ) (id : ν → Identity) (q₀ : Packet) :
    List (NetRec ν μ) → μ → List ν → Packet → Prop
  | origin {rs : List (NetRec ν μ)} {m : μ} (h : Origin medium rs q₀ m) :
    Trail medium id q₀ rs m [] q₀
  | passed {rs₁ rs₂ rs₃ : List (NetRec ν μ)} {r₁ r₂ : NetRec ν μ} {n : ν} {i j : IfaceId}
    {via : List ν} {q q' : Packet} {now : Nat} {a : Action}
    (h : Trail medium id q₀ rs₁ (medium n i) via q)
    (htook : r₁.act = .call n (.inbound i q.wireBytes now))
    (htakes : (r₁.pre.node n).TakesIn q) (hsent : r₂.act = .call n a)
    (hout : (j, q'.wireBytes) ∈ (r₂.post.node n).transmissions) (hq : PassesOn (id n) q q') :
    Trail medium id q₀ (rs₁ ++ r₁ :: (rs₂ ++ r₂ :: rs₃)) (medium n j) (n :: via) q'

/-- The node `n` has taken in the announce `q`, which came to its interface `i` over `via`. -/
def TookIn (medium : ν → IfaceId → μ) (id : ν → Identity) (rs : List (NetRec ν μ)) (n : ν)
    (i : IfaceId) (q₀ : Packet) (via : List ν) (q : Packet) : Prop :=
  ∃ before r after now, rs = before ++ r :: after ∧
    Trail medium id q₀ before (medium n i) via q ∧ r.act = .call n (.inbound i q.wireBytes now) ∧
    (r.pre.node n).TakesIn q

section
variable {medium : ν → IfaceId → μ} {id : ν → Identity} {rs : List (NetRec ν μ)} {r : NetRec ν μ}
  {q₀ q : Packet} {m : μ} {via : List ν} {n : ν} {i : IfaceId}

theorem Origin.mono {rs' : List (NetRec ν μ)} (h : Origin medium rs q m) (hsub : rs ⊆ rs') :
    Origin medium rs' q m := by
  cases h with
  | injected hr ha => exact .injected (hsub hr) ha
  | own hr ha hb hs => exact .own (hsub hr) ha hb hs

theorem Origin.snoc (h : Origin medium rs q m) : Origin medium (rs ++ [r]) q m :=
  h.mono (List.subset_append_left rs [r])

theorem Trail.snoc (h : Trail medium id q₀ rs m via q) :
    Trail medium id q₀ (rs ++ [r]) m via q := by
  cases h with
  | origin h => exact .origin h.snoc
  | @passed rs₁ rs₂ rs₃ r₁ r₂ n i j via q q' now a h htook htakes hsent hout hq =>
    have hrs : rs₁ ++ r₁ :: (rs₂ ++ r₂ :: rs₃) ++ [r] =
        rs₁ ++ r₁ :: (rs₂ ++ r₂ :: (rs₃ ++ [r])) := by
      simp
    rw [hrs]
    exact .passed h htook htakes hsent hout hq

theorem TookIn.snoc (h : TookIn medium id rs n i q₀ via q) :
    TookIn medium id (rs ++ [r]) n i q₀ via q := by
  obtain ⟨before, r', after, now, rfl, htrail, ha, hacc⟩ := h
  exact ⟨before, r', after ++ [r], now, by simp, htrail, ha, hacc⟩

/-- What a node sends of an announce that it has taken in goes on along the trail. -/
theorem TookIn.trail {a : Action} {j : IfaceId} {q' : Packet}
    (h : TookIn medium id rs n i q₀ via q) (ha : r.act = .call n a)
    (hout : (j, q'.wireBytes) ∈ (r.post.node n).transmissions) (hq : PassesOn (id n) q q') :
    Trail medium id q₀ (rs ++ [r]) (medium n j) (n :: via) q' := by
  obtain ⟨before, r', after, now, rfl, htrail, ha', hacc⟩ := h
  have hrs : before ++ r' :: after ++ [r] = before ++ r' :: (after ++ r :: []) := by
    simp
  rw [hrs]
  exact .passed htrail ha' hacc ha hout hq

theorem Trail.exists_origin (h : Trail medium id q₀ rs m via q) :
    ∃ m₀, Origin medium rs q₀ m₀ := by
  induction h with
  | origin h => exact ⟨_, h⟩
  | passed _ _ _ _ _ _ ih =>
    obtain ⟨m₀, h⟩ := ih
    exact ⟨m₀, h.mono (List.subset_append_left ..)⟩

theorem Builds.hops_eq_zero {t : Transport} {q : Packet} (h : t.Builds q.wireBytes) :
    q.hops = 0 := by
  obtain ⟨k, dest, randomPrefix, secs, appData, pathResponse, -, hbuild⟩ := h
  obtain ⟨-, -, -, signature, -, hwire⟩ := Destination.buildAnnounce_eq_ok hbuild
  rw [q.wireBytes_eq] at hwire
  exact (List.cons.inj (List.cons.inj hwire).2).1

/-! ### What a trail tells of its end -/

theorem Trail.eq_of_nil (h : Trail medium id q₀ rs m [] q) : q = q₀ := by
  cases h
  rfl

omit [CryptoLib] in
theorem PassesOn.shape {ident : Identity} {q' : Packet} (h : PassesOn ident q q') :
    q'.headerType = .header2 ∧ q'.transportId = ident.identityHash ∧ q'.hops = q.bumped.hops := by
  obtain ⟨h2, htid, hhops, -⟩ := reissued_shape ident q.bumped
  cases h with
  | rebroadcast => exact ⟨h2, htid, hhops⟩
  | response => exact ⟨h2, htid, hhops⟩

/-- Along a trail only what is not signed changes: the hops count the nodes, and the transport id
is the last one's. -/
theorem Trail.spec (h : Trail medium id q₀ rs m via q) :
    q.hops.toNat = min 255 (q₀.hops.toNat + via.length) ∧
    (∀ n', via.head? = some n' → q.headerType = .header2 ∧
      q.transportId = (id n').identityHash) ∧
    ∀ va, Identity.validateAnnounce q = some va → Identity.validateAnnounce q₀ =
      some { va with isPathResponse := q₀.context == contextPathResponse } := by
  induction h with
  | origin _ =>
    refine ⟨?_, by simp, ?_⟩
    · have hlt := q₀.hops.toNat_lt
      rw [List.length_nil]
      omega
    · intro va hv
      obtain ⟨body, hb⟩ := validateAnnounce_eq_some hv
      rw [hv, ← hb.isPathResponse]
  | @passed rs₁ rs₂ rs₃ r₁ r₂ n i j via q q' now a _ _ htakes _ _ hq ih =>
    obtain ⟨hhops, -, hback⟩ := ih
    obtain ⟨h2, htid, hq'⟩ := hq.shape
    obtain ⟨va₁, hacc⟩ := Option.isSome_iff_exists.mp htakes.2
    have hv₁ : Identity.validateAnnounce q = some va₁ :=
      (validateAnnounce_bumped q).symm.trans (accepts_checks hacc).1
    have hre : Identity.validateAnnounce (reissued (id n) q.bumped) = some va₁ :=
      (validateAnnounce_reissued _ _).trans (accepts_checks hacc).1
    refine ⟨?_, ?_, ?_⟩
    · rw [hq', Packet.bumped_hops, hhops, List.length_cons]
      omega
    · intro n' hn'
      cases hn'
      exact ⟨h2, htid⟩
    · intro va hv
      rw [hback va₁ hv₁]
      cases hq with
      | rebroadcast =>
        rw [hre] at hv
        rw [Option.some.inj hv]
      | response =>
        rw [validateAnnounce_withContext _ hre] at hv
        rw [← Option.some.inj hv]

end

/-! ### The network -/

/-- What an entry for `d` at the node `n` was learned from. -/
structure LearnedFrom (medium : ν → IfaceId → μ) (id : ν → Identity) (rs : List (NetRec ν μ))
    (n : ν) (d : Bytes) (e : PathEntry) (i : IfaceId) (q₀ : Packet) (via : List ν) (q : Packet) :
    Prop where
  tookIn : TookIn medium id rs n i q₀ via q
  announces : (Identity.validateAnnounce q).map ValidatedAnnounce.destinationHash = some d
  receivingInterface : e.receivingInterface = some i
  hops : e.hops = q.bumped.hops
  nextHop : e.nextHop = learnedNextHop q.bumped
  announceWire : e.announceWire = (reissued (id n) q.bumped).wireBytes

/-- The node `n` waits to send `w` on, or keeps it to answer path requests. -/
def SendsOn (medium : ν → IfaceId → μ) (id : ν → Identity) (rs : List (NetRec ν μ)) (n : ν)
    (w : Bytes) : Prop :=
  ∃ i q₀ via q, TookIn medium id rs n i q₀ via q ∧ w = (reissued (id n) q.bumped).wireBytes

def Learned (medium : ν → IfaceId → μ) (id : ν → Identity) (rs : List (NetRec ν μ)) (n : ν)
    (d : Bytes) (e : PathEntry) : Prop :=
  ∃ i q₀ via q, LearnedFrom medium id rs n d e i q₀ via q

/-- What the node `n` holds of announces has come to it along trails. -/
structure Traced (medium : ν → IfaceId → μ) (id : ν → Identity) (rs : List (NetRec ν μ)) (n : ν)
    (t : Transport) : Prop where
  localIdentity : t.localIdentity = id n
  stocks : Stocks (SendsOn medium id rs n) (Learned medium id rs n) t

/-- An announce on the medium has come along a trail. -/
def TracedAir (medium : ν → IfaceId → μ) (id : ν → Identity) (rs : List (NetRec ν μ)) (m : μ)
    (w : Bytes) : Prop :=
  ∀ q, w = q.wireBytes → (Identity.validateAnnounce q).isSome →
    ∃ q₀ via, Trail medium id q₀ rs m via q

section
variable {medium : ν → IfaceId → μ} {id : ν → Identity} {rs : List (NetRec ν μ)} {r : NetRec ν μ}
  {n : ν} {t : Transport}

theorem Traced.snoc (h : Traced medium id rs n t) : Traced medium id (rs ++ [r]) n t := by
  refine ⟨h.localIdentity, ?_, ?_, ?_⟩
  · intro d e he
    obtain ⟨i, q₀, via, q, hl⟩ := h.stocks.paths d e he
    exact ⟨i, q₀, via, q, { hl with tookIn := hl.tookIn.snoc }⟩
  · intro k e he
    obtain ⟨i, q₀, via, q, ht, hw⟩ := h.stocks.announceTable k e he
    exact ⟨i, q₀, via, q, ht.snoc, hw⟩
  · intro j e he
    obtain ⟨i, q₀, via, q, ht, hw⟩ := h.stocks.queue j e he
    exact ⟨i, q₀, via, q, ht.snoc, hw⟩

theorem LearnedFrom.noted {d blob : Bytes} {e : PathEntry} {i : IfaceId} {q₀ q : Packet}
    {via : List ν} (h : LearnedFrom medium id rs n d e i q₀ via q) :
    LearnedFrom medium id rs n d (e.noted blob) i q₀ via q := by
  rw [PathEntry.noted_eq]
  exact ⟨h.tookIn, h.announces, h.receivingInterface, h.hops, h.nextHop, h.announceWire⟩

theorem TracedAir.snoc {m : μ} {w : Bytes} (h : TracedAir medium id rs m w) :
    TracedAir medium id (rs ++ [r]) m w := by
  intro q hw hv
  obtain ⟨q₀, via, htrail⟩ := h q hw hv
  exact ⟨q₀, via, htrail.snoc⟩

/-- What a node sends of announces goes on along their trails. -/
theorem TracedAir.of_sends {a : Action} {j : IfaceId} {w : Bytes}
    (hsends : Sends (SendsOn medium id rs n) (Learned medium id rs n) (r.pre.node n) w)
    (ha : r.act = .call n a) (hw : (j, w) ∈ (r.post.node n).transmissions) :
    TracedAir medium id (rs ++ [r]) (medium n j) w := by
  rintro q rfl hvalid
  have hlast : r ∈ rs ++ [r] := by
    simp
  generalize hwire : q.wireBytes = w at hsends
  cases hsends with
  | queued h =>
    obtain ⟨i, q₀, via, q', htook, rfl⟩ := h
    obtain rfl := Packet.wireBytes_injective hwire
    exact ⟨q₀, n :: via, htook.trail ha hw .rebroadcast⟩
  | response h =>
    obtain ⟨i, q₀, via, q', hl⟩ := h
    rw [hl.announceWire, Packet.set_h2CtxOffset (reissued_shape _ _).1] at hwire
    obtain rfl := Packet.wireBytes_injective hwire
    exact ⟨q₀, n :: via, hl.tookIn.trail ha hw .response⟩
  | own h =>
    rw [← hwire] at h
    exact ⟨q, [], .origin (.own hlast ha h hw)⟩
  | forwarded h =>
    obtain rfl := Packet.wireBytes_injective hwire
    obtain ⟨va, hva⟩ := Option.isSome_iff_exists.mp hvalid
    obtain ⟨body, hb⟩ := validateAnnounce_eq_some hva
    exact absurd hb.packetType h

/-- What a node takes in has come along a trail. -/
theorem TracedAir.tookIn {i : IfaceId} {wire : Bytes} {now : Nat} {p : Packet}
    {va : ValidatedAnnounce} (h : TracedAir medium id rs (medium n i) wire)
    (ha : r.act = .call n (.inbound i wire now)) (hw : arriving wire = some p)
    (hs : (r.pre.node n).hasSeen p = false) (hacc : (r.pre.node n).accepts p = some va) :
    ∃ q₀ via q, p = q.bumped ∧ TookIn medium id (rs ++ [r]) n i q₀ via q := by
  obtain ⟨q, rfl, rfl⟩ := exists_of_arriving hw
  have hv : Identity.validateAnnounce q = some va :=
    (validateAnnounce_bumped q).symm.trans (accepts_checks hacc).1
  obtain ⟨q₀, via, htrail⟩ := h q rfl (by rw [hv]; rfl)
  exact ⟨q₀, via, q, rfl, rs, r, [], now, rfl, htrail, ha, hs, by rw [hacc]; rfl⟩

theorem Traced.step {a : Action} (hi : Traced medium id rs n (r.pre.node n))
    (ha : r.act = .call n a) (h : (r.pre.node n).step a = .ok (r.post.node n))
    (hheard : ∀ i wire now, a = .inbound i wire now → TracedAir medium id rs (medium n i) wire) :
    Traced medium id (rs ++ [r]) n (r.post.node n) ∧
      ∀ j w, (j, w) ∈ (r.post.node n).transmissions →
        TracedAir medium id (rs ++ [r]) (medium n j) w := by
  have hid := hi.localIdentity
  have hlater : Traced medium id (rs ++ [r]) n (r.pre.node n) := hi.snoc
  have hstep := hlater.stocks.step h ?_ ?_ ?_
  · exact ⟨⟨(step_localIdentity h).trans hid, hstep⟩,
      fun j w hw => .of_sends (hi.stocks.sends h j w hw) ha hw⟩
  · rintro i wire now p va rfl hw hs hacc
    obtain ⟨q₀, via, q, rfl, htook⟩ := (hheard i wire now rfl).tookIn ha hw hs hacc
    exact ⟨i, q₀, via, q, htook, by rw [hid]⟩
  · rintro i wire now p va rfl hw hs hacc
    obtain ⟨q₀, via, q, rfl, htook⟩ := (hheard i wire now rfl).tookIn ha hw hs hacc
    have hv : Identity.validateAnnounce q = some va :=
      (validateAnnounce_bumped q).symm.trans (accepts_checks hacc).1
    exact ⟨i, q₀, via, q, htook, by rw [hv]; rfl, rfl, rfl, rfl, by rw [← hid]; rfl⟩
  · rintro d e blob ⟨i, q₀, via, q, hl⟩
    exact ⟨i, q₀, via, q, hl.noted⟩

variable [DecidableEq ν] {net net' : Net ν μ Transport Bytes}

/-- In every run of a network of fresh nodes, whatever is injected and whoever hears what and when,
each path entry is the end of a trail: an announce that was injected, or built by a node that has
the destination, was taken in and sent on by the nodes `via` one after the other. The entry's
distance is the length of this trail, its next hop is the node the announce was last heard from,
and the wire it caches is the announce as this node would send it on. -/
theorem routes_traced (hrun : Run (Net.Step (onMedia medium)) net rs net')
    (hnew : ∀ n, ∃ enabled cfg, net.node n = new (id n) enabled cfg)
    (hair : ∀ m, net.air m = ∅) {d : Bytes} {e : PathEntry}
    (he : (net'.node n).paths.get d = some e) :
    ∃ i q₀ via q va, e.receivingInterface = some i ∧ TookIn medium id rs n i q₀ via q ∧
      Identity.validateAnnounce q₀ = some va ∧ va.destinationHash = d ∧
      e.hops.toNat = min 255 (q₀.hops.toNat + via.length + 1) ∧
      e.nextHop = via.head?.elim (learnedNextHop q₀.bumped) (fun n' => (id n').identityHash) ∧
      e.announceWire = (reissued (id n) q.bumped).wireBytes := by
  have htraced := Net.inv_of_calls (N := fun rs n t => Traced medium id rs n t)
    (A := fun rs m w => TracedAir medium id rs m w) hrun ?_ ?_ ?_ ?_ ?_
  · obtain ⟨i, q₀, via, q, hl⟩ := (htraced.1 n).stocks.paths d e he
    obtain ⟨va, hva, hd⟩ := Option.map_eq_some_iff.mp hl.announces
    obtain ⟨before, r, after, now, hrs, htrail, htook⟩ := hl.tookIn
    obtain ⟨hhops, hlast, hback⟩ := htrail.spec
    refine ⟨i, q₀, via, q, _, hl.receivingInterface, ⟨before, r, after, now, hrs, htrail, htook⟩,
      hback va hva, hd, ?_, ?_, hl.announceWire⟩
    · rw [hl.hops, Packet.bumped_hops, hhops]
      omega
    · rw [hl.nextHop]
      cases via with
      | nil =>
        rw [htrail.eq_of_nil]
        rfl
      | cons n' via =>
        obtain ⟨h2, htid⟩ := hlast n' rfl
        exact (if_pos h2).trans htid
  · intro n
    obtain ⟨enabled, cfg, heq⟩ := hnew n
    rw [heq]
    exact ⟨rfl, stocks_new _ _ _⟩
  · intro m w hw
    rw [hair m] at hw
    cases hw
  · exact fun rs r => ⟨fun n t h => h.snoc, fun m w h => h.snoc⟩
  · rintro rs r m w ha q rfl _
    exact ⟨q, [], .origin (.injected (by simp) ha)⟩
  · intro rs r n a ha h hi hheard
    refine hi.step ha h fun i wire now hin => hheard i wire ?_
    rw [hin]
    rfl

end
end Transport
end

namespace Transport
open Vectors
attribute [local instance] lib

/-- Bob is heard sending on what he has taken in. -/
theorem run_passedOn {b b₁ b₂ b₃ c c₁ : Transport} {w w' : Bytes} {now : Nat}
    (hb₁ : b.step (.registerInterface 0) = .ok b₁) (hb₂ : b₁.step (.inbound 0 w now) = .ok b₂)
    (hb₃ : b₂.step (.tick now) = .ok b₃) (hw : (0, w') ∈ b₃.transmissions)
    (hc₁ : c.step (.inbound 0 w' now) = .ok c₁) :
    ∃ rs net, Run (Net.Step channel) (pair b c) rs net ∧
      rs.map Rec.act = [.call false (.registerInterface 0), .inject () w,
        .call false (.inbound 0 w now), .call false (.tick now), .call true (.inbound 0 w' now)] ∧
      net.node true = c₁ := by
  refine ⟨_, _, .cons (.call (n := false) (a := Action.registerInterface 0) (s := b₁) ?_ hb₁)
    (.cons (.inject () w) (.cons (.call (n := false) (a := Action.inbound 0 w now) (s := b₂) ?_ hb₂)
    (.cons (.call (n := false) (a := Action.tick now) (s := b₃) ?_ hb₃)
    (.single (.call (n := true) (a := Action.inbound 0 w' now) (s := c₁) ?_ hc₁))))), rfl, rfl⟩
  · rintro i w' ⟨⟩
  · rintro i w' ⟨⟩
    exact Net.mem_air_inject () w
  · rintro i w' ⟨⟩
  · rintro i w' ⟨⟩
    exact Net.mem_air_after (L := channel) (n := false) hw

set_option maxRecDepth 100000 in
theorem carol_learns_alice : (do
    let b₁ ← relay.step (.registerInterface 0)
    let b₂ ← b₁.step (.inbound 0 aliceAnnounce 1000)
    let b₃ ← b₂.step (.tick 1000)
    let c₁ ← (new carol true fun _ => cfg).step (.inbound 0 bobAnnouncePacket.wireBytes 1000)
    return (b₃.transmissions,
      (c₁.paths.get aliceDest).map fun e => (e.hops, e.nextHop))) =
    Except.ok ([(0, bobAnnouncePacket.wireBytes)], some (2, bob.identityHash)) := by
  decide +kernel

/-- Carol has her path to Alice from Bob, who took her announce in and sent it on. -/
theorem routes_traced_alice : ∃ rs net e i q₀ q,
    Run (Net.Step channel) (pair relay (new carol true fun _ => cfg)) rs net ∧
      (net.node true).paths.get aliceDest = some e ∧
      TookIn (fun _ _ => ()) (fun n => bif n then carol else bob) rs true i q₀ [false] q ∧
      e.hops = 2 ∧ e.nextHop = bob.identityHash := by
  obtain ⟨b₁, hb₁, h⟩ := bind_eq_ok carol_learns_alice
  obtain ⟨b₂, hb₂, h⟩ := bind_eq_ok h
  obtain ⟨b₃, hb₃, h⟩ := bind_eq_ok h
  obtain ⟨c₁, hc₁, h⟩ := bind_eq_ok h
  obtain ⟨hout, he⟩ := Prod.mk.inj (Except.ok.inj h)
  obtain ⟨e, he, heq⟩ := Option.map_eq_some_iff.mp he
  obtain ⟨hhops, hnext⟩ := Prod.mk.inj heq
  obtain ⟨rs, net, hrun, hacts, hnode⟩ := run_passedOn hb₁ hb₂ hb₃ (by rw [hout]; simp) hc₁
  have hnew : ∀ n, ∃ enabled c, (pair relay (new carol true fun _ => cfg)).node n =
      new (bif n then carol else bob) enabled c := by
    intro n
    cases n with
    | false => exact ⟨true, fun _ => cfg, rfl⟩
    | true => exact ⟨true, fun _ => cfg, rfl⟩
  have he : (net.node true).paths.get aliceDest = some e := hnode ▸ he
  obtain ⟨i, q₀, via, q, va, -, htook, -, -, hlen, hlast, -⟩ :=
    routes_traced hrun hnew (fun _ => rfl) he
  refine ⟨rs, net, e, i, q₀, q, hrun, he, ?_, hhops, hnext⟩
  -- the one announce injected has no hops yet, and no announce that a node builds has any
  have hzero : q₀.hops = 0 := by
    obtain ⟨before, r, after, now, rfl, htrail, -⟩ := htook
    obtain ⟨m₀, horigin⟩ := htrail.exists_origin
    cases horigin with
    | @injected r' m hr ha =>
      have hmem := List.mem_map_of_mem (f := Rec.act) (List.mem_append_left (r :: after) hr)
      rw [hacts, ha] at hmem
      simp only [List.mem_cons, Net.Act.inject.injEq, reduceCtorEq, List.not_mem_nil, or_false,
        false_or] at hmem
      rw [Packet.wireBytes_injective (q := aliceAnnouncePacket) hmem.2]
      rfl
    | own _ _ hb _ => exact hb.hops_eq_zero
  have hone : via.length = 1 := by
    rw [hhops, hzero] at hlen
    change 2 = min 255 (0 + via.length + 1) at hlen
    omega
  obtain ⟨n', rfl⟩ := List.length_eq_one_iff.mp hone
  cases n' with
  | false => exact htook
  | true =>
    have hsame : bob.identityHash = carol.identityHash := hnext.symm.trans hlast
    exact absurd hsame (by decide)

end Transport
end Reticulum
