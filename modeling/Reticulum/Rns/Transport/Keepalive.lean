import Reticulum.Rns.Transport.Links

/-!
# Keepalives and the staleness clock

A relayed link packet sets `last_activity_ms`, and a tick removes a validated entry only when that
is `LINK_STALE_THRESHOLD_MS` old. The comment in `handle_link_data_forward` says KEEPALIVE traffic
"implicitly resets the timer"; it does so only while the hash list has not seen the same packet.
-/

namespace Reticulum

structure Packet.IsKeepalive (p : Packet) (id : Bytes) : Prop where
  packetType : p.packetType = .data
  destinationType : p.destinationType = .link
  destinationHash : p.destinationHash = id
  context : p.context = contextKeepalive

section
variable [CryptoLib]

theorem Packet.IsKeepalive.handler {p : Packet} {id : Bytes} (h : p.IsKeepalive id)
    (hn : id ≠ pathRequestDestinationHash) : p.handler = .linkData :=
  Packet.handler_eq_linkData.mpr ⟨h.packetType, h.destinationHash ▸ hn, h.destinationType⟩

namespace Transport

theorem step_keepalive {t : Transport} {id : Bytes} {e : LinkEntry} {i : IfaceId} {wire : Bytes}
    {p : Packet} (now : Nat) (hi : LinkInv t) (hn : id ≠ pathRequestDestinationHash)
    (he : t.linkTable.get id = some e) (hv : e.validated = true) (hj : e.Joins i)
    (hw : arriving wire = some p) (hp : p.IsKeepalive id) (hs : t.hasSeen p = false) :
    ∃ t' o, t.step (.inbound i wire now) = .ok t' ∧ e.Opposite i o ∧
      t'.out = [.transmit .linkForward o p.wireBytes] ∧
      t'.linkTable.get id = some { e with lastActivityMs := now } := by
  obtain ⟨o, s, ho, hstep⟩ :=
    step_linkData now hi (hp.destinationHash ▸ he) hv hj hw hs (hp.handler hn)
  refine ⟨_, o, hstep, ho, rfl, ?_⟩
  have hc : p.context ≠ contextLinkclose := by rw [hp.context]; decide
  rw [get_relayedLinks, if_pos hp.destinationHash.symm, if_neg hc, he]
  rfl

/-- The step takes in a KEEPALIVE of the established link `id`, on one of its interfaces, at `τ`. -/
def TakesKeepalive (id : Bytes) (r : Rec Transport Action) (τ : Nat) : Prop :=
  ∃ i wire p e, r.act = .inbound i wire τ ∧ arriving wire = some p ∧ p.IsKeepalive id ∧
    r.pre.linkTable.get id = some e ∧ e.validated = true ∧ e.Joins i

/-- The step takes in the LRPROOF that establishes the link `id`, at `τ`. -/
def TakesLrproof (id : Bytes) (r : Rec Transport Action) (τ : Nat) : Prop :=
  ∃ i wire p e f, r.act = .inbound i wire τ ∧ arriving wire = some p ∧
    r.pre.hasSeen p = false ∧ p.handler = .linkProof ∧ p.destinationHash = id ∧
    r.pre.provenLink i p = some (e, f)

def ActiveSince (id : Bytes) (τ : Nat) (t : Transport) : Prop :=
  ∀ e, t.linkTable.get id = some e → τ ≤ e.lastActivityMs

theorem activeSince_step {id : Bytes} {τ : Nat} {t t' : Transport} {a : Action}
    (ha : ActiveSince id τ t) (h : t.step a = .ok t') (hτ : ∀ τ', a.time? = some τ' → τ ≤ τ') :
    ActiveSince id τ t' := by
  intro e he
  cases step_link h id with
  | keep hk => exact ha e (hk ▸ he)
  | request _ _ _ _ _ hg => cases hg.symm.trans he; exact hτ _ rfl
  | proof _ _ _ _ _ hg => cases hg.symm.trans he; exact hτ _ rfl
  | data _ _ _ _ _ _ hg => cases hg.symm.trans he; exact hτ _ rfl
  | close _ _ _ _ _ _ hg => cases hg.symm.trans he
  | lapse _ _ hg => cases hg.symm.trans he

theorem activeSince_keepalive {id : Bytes} {r : Rec Transport Action} {τ : Nat}
    (hi : LinkInv r.pre) (hn : id ≠ pathRequestDestinationHash) (h : Steps r.pre r.act r.post)
    (hk : TakesKeepalive id r τ)
    (hnew : ∀ i wire now p, r.act = .inbound i wire now → arriving wire = some p →
      p.IsKeepalive id → r.pre.hasSeen p = false) : ActiveSince id τ r.post := by
  obtain ⟨i, wire, p, e, ha, hw, hp, he, hv, hj⟩ := hk
  obtain ⟨t', o, hstep, -, -, hg⟩ :=
    step_keepalive τ hi hn he hv hj hw hp (hnew i wire τ p ha hw hp)
  obtain rfl : r.post = t' := Except.ok.inj ((ha ▸ h : Steps r.pre _ r.post).symm.trans hstep)
  intro e' he'
  cases hg.symm.trans he'
  exact Nat.le_refl τ

theorem activeSince_lrproof {id : Bytes} {r : Rec Transport Action} {τ : Nat}
    (h : Steps r.pre r.act r.post) (hk : TakesLrproof id r τ) : ActiveSince id τ r.post := by
  obtain ⟨i, wire, p, e, f, ha, hw, hs, hk, hid, hr⟩ := hk
  obtain ⟨s, hstep⟩ := step_linkProof τ hw hs hk hr
  have hpost := Except.ok.inj ((ha ▸ h : Steps r.pre _ r.post).symm.trans hstep)
  intro e' he'
  rw [hpost] at he'
  rw [LinkTable.get_getMut, if_pos hid.symm, (provenLink_eq_some hr).1] at he'
  cases he'
  exact Nat.le_refl τ

/-- No tick of a run removes the link `id`, if at each of its ticks some keepalive, or the LRPROOF
that established the link, is less than the threshold old. -/
theorem no_tick_removes {t₀ t : Transport} {rs : List (Rec Transport Action)} {id : Bytes}
    (h₀ : LinkInv t₀) (hrun : Run Steps t₀ rs t) (htime : Timely rs)
    (hn : id ≠ pathRequestDestinationHash)
    (hfed : ∀ before r after now, rs = before ++ r :: after → r.act = .tick now →
      (∃ e, r.pre.linkTable.get id = some e ∧ e.validated = true) →
      ∃ k ∈ before, ∃ τ, now < τ + linkStaleThresholdMs ∧
        (TakesKeepalive id k τ ∨ TakesLrproof id k τ))
    (hnew : ∀ r ∈ rs, ∀ i wire now p, r.act = .inbound i wire now → arriving wire = some p →
      p.IsKeepalive id → r.pre.hasSeen p = false)
    {r : Rec Transport Action} {now : Nat} {e : LinkEntry} (hr : r ∈ rs) (ha : r.act = .tick now)
    (he : r.pre.linkTable.get id = some e) (hv : e.validated = true) :
    r.post.linkTable.get id = some e := by
  obtain ⟨before, after, rfl⟩ := List.append_of_mem hr
  obtain ⟨k, hk, τ, hτ, htakes⟩ := hfed before r after now rfl ha ⟨e, he, hv⟩
  obtain ⟨b₁, b₂, rfl⟩ := List.append_of_mem hk
  obtain ⟨hbefore, hstep, -⟩ := hrun.split_at
  obtain ⟨hb₁, hkstep, hb₂⟩ := hbefore.split_at
  have hinv : LinkInv k.pre := hb₁.inv h₀ fun _ _ _ => linkInv_step
  have hkτ : k.act.time? = some τ := by
    rcases htakes with ⟨i, wire, p, e, h, -⟩ | ⟨i, wire, p, e, f, h, -⟩ <;> rw [h] <;> rfl
  have hpost : ActiveSince id τ k.post := by
    rcases htakes with h | h
    · exact activeSince_keepalive hinv hn hkstep h (hnew k (by simp))
    · exact activeSince_lrproof hkstep h
  have hpre : ActiveSince id τ r.pre := by
    have hlate := Timely.le htime.of_append hkτ
    exact hb₂.inv_of hpost hlate fun s a s' hs h hC => activeSince_step hs h hC
  have hle := hpre e he
  cases (ha ▸ step_link hstep id : LinkStep r.pre id (.tick now) r.post) with
  | keep h => rw [h, he]
  | lapse he' hl _ =>
    cases he.symm.trans he'
    rw [lapsed_validated hv, decide_eq_true_eq] at hl
    omega

/-- A keepalive crosses its link and resets the clock exactly when the node has not seen it; and
while the keepalives it takes in are unseen and close enough together, no tick removes the link. -/
theorem keepalives_keep_link :
    (∀ {t : Transport} {id : Bytes} {e : LinkEntry} {i : IfaceId} {wire : Bytes} {p : Packet}
      (now : Nat), Reachable t → t.linkTable.get id = some e → e.validated = true →
      id ≠ pathRequestDestinationHash → e.Joins i → arriving wire = some p → p.IsKeepalive id →
      ((∃ t' o, t.step (.inbound i wire now) = .ok t' ∧ e.Opposite i o ∧
          t'.transmissions = [(o, p.wireBytes)] ∧
          t'.linkTable.get id = some { e with lastActivityMs := now }) ↔
        t.hasSeen p = false)) ∧
    ∀ {t₀ t : Transport} {rs : List (Rec Transport Action)} {id : Bytes},
      Reachable t₀ → Run Steps t₀ rs t → Timely rs → id ≠ pathRequestDestinationHash →
      (∀ before r after now, rs = before ++ r :: after → r.act = .tick now →
        (∃ e, r.pre.linkTable.get id = some e ∧ e.validated = true) →
        ∃ k ∈ before, ∃ τ, now < τ + linkStaleThresholdMs ∧
          (TakesKeepalive id k τ ∨ TakesLrproof id k τ)) →
      (∀ r ∈ rs, ∀ i wire now p, r.act = .inbound i wire now → arriving wire = some p →
        p.IsKeepalive id → r.pre.hasSeen p = false) →
      ∀ r ∈ rs, ∀ now e, r.act = .tick now → r.pre.linkTable.get id = some e →
        e.validated = true → r.post.linkTable.get id = some e := by
  refine ⟨fun {t id e i wire p now} ht he hv hn hj hw hp => ⟨?_, fun hs => ?_⟩, ?_⟩
  · rintro ⟨t', o, hstep, -, htx, -⟩
    by_contra hs
    obtain ⟨s, hdrop⟩ := step_of_hasSeen now hw (eq_true_of_ne_false hs)
    cases hdrop.symm.trans hstep
    cases htx
  · obtain ⟨t', o, hstep, ho, hout, hg⟩ := step_keepalive now ht.linkInv hn he hv hj hw hp hs
    exact ⟨t', o, hstep, ho, by rw [transmissions, hout]; rfl, hg⟩
  · intro t₀ t rs id h₀ hrun htime hn hfed hnew r hr now e ha he hv
    exact no_tick_removes h₀.linkInv hrun htime hn hfed hnew hr ha he hv

end Transport
end

namespace Transport
open Vectors
attribute [local instance] lib

theorem keepalivePacket_isKeepalive : keepalivePacket.IsKeepalive linkId :=
  ⟨by decide, by decide, by decide, by decide⟩

/-- The link of the vectors: its keepalive at 303 s crosses, and the tick at 800 s leaves it. -/
theorem keepalives_keep_link_linkUp : ∃ t t' t'', Reachable t ∧
    t.step (.inbound 0 keepalive 303000) = .ok t' ∧
    t'.transmissions = [(1, keepalivePacket.wireBytes)] ∧
    t'.step (.tick 800000) = .ok t'' ∧
    t''.linkTable.get linkId = some (linkEntry 303000) := by
  obtain ⟨t, -, ht, hf⟩ := reachable_of_steps (reachable_new bob true fun _ => cfg) linkUp_state
  obtain ⟨he, hf⟩ := Prod.mk.inj hf
  obtain ⟨hs, hsome⟩ := Prod.mk.inj hf
  obtain ⟨t', o, hka, ho, htx, hg⟩ := (keepalives_keep_link.1 303000 ht he rfl
    linkId_ne_pathRequest (.inl rfl) arriving_keepalive keepalivePacket_isKeepalive).mpr hs
  obtain rfl : 1 = o := by
    rcases ho with ⟨-, ho⟩ | ⟨h, -⟩
    · exact Option.some.inj ho
    · exact absurd h (by decide)
  obtain ⟨t'', htick⟩ : ∃ t'', t'.step (.tick 800000) = .ok t'' := by
    obtain ⟨t₂, h⟩ := steps_of_isSome hsome
    obtain ⟨t₁, h₁, h⟩ := steps_cons h
    obtain ⟨t'', htick, -⟩ := steps_cons h
    cases hka.symm.trans h₁
    exact ⟨t'', htick⟩
  have hrun : Run Steps t [⟨t, .inbound 0 keepalive 303000, t'⟩, ⟨t', .tick 800000, t''⟩] t'' :=
    .cons hka (.single htick)
  refine ⟨t, t', t'', ht, hka, htx, htick, keepalives_keep_link.2 ht hrun
    (by simp [Timely, Action.time?]) linkId_ne_pathRequest ?_ ?_ ⟨t', .tick 800000, t''⟩ (by simp)
    800000 _ rfl hg rfl⟩
  · intro before r after now hrs hr _
    rcases before with _ | ⟨k, _ | ⟨_, _⟩⟩
    · cases hrs; cases hr
    · cases hrs; cases hr
      exact ⟨_, List.mem_singleton_self _, 303000, by decide, .inl ⟨0, keepalive, keepalivePacket,
        _, rfl, arriving_keepalive, keepalivePacket_isKeepalive, he, rfl, .inl rfl⟩⟩
    · simp at hrs
  · intro r hr i wire now p ha hw _
    rcases List.mem_cons.mp hr with rfl | hr
    · cases ha
      cases arriving_keepalive.symm.trans hw
      exact hs
    · cases List.mem_singleton.mp hr
      cases ha

set_option maxRecDepth 100000 in
theorem linkUp_keepalive_state :
    (relay.steps (linkUp ++ [.inbound 0 keepalive 303000])).toOption.map (fun t =>
      (t.linkTable.get linkId, t.hasSeen keepalivePacket,
        ((t.steps [.inbound 0 keepalive 603000, .tick 903000]).toOption.map fun t' =>
          t'.linkTable.get linkId))) =
    some (some (linkEntry 303000), true, some none) := by
  decide +kernel

/-- The initiator repeats its keepalive every 300 s, as the same bytes: the repetition is dropped,
the clock stays, and the tick at 903 s removes the link. -/
theorem keepalive_repeated_dropped : ∃ t t' t'' e, Reachable t ∧
    t.linkTable.get linkId = some e ∧ e.validated = true ∧ linkId ≠ pathRequestDestinationHash ∧
    e.Joins 0 ∧ arriving keepalive = some keepalivePacket ∧ keepalivePacket.IsKeepalive linkId ∧
    t.step (.inbound 0 keepalive 603000) = .ok t' ∧ t'.transmissions = [] ∧
    t'.linkTable.get linkId ≠ some { e with lastActivityMs := 603000 } ∧
    t'.step (.tick 903000) = .ok t'' ∧ t''.linkTable.get linkId = none := by
  obtain ⟨t, -, ht, hf⟩ :=
    reachable_of_steps (reachable_new bob true fun _ => cfg) linkUp_keepalive_state
  obtain ⟨he, hf⟩ := Prod.mk.inj hf
  obtain ⟨hs, hf⟩ := Prod.mk.inj hf
  obtain ⟨t'', h, -, hnone⟩ := reachable_of_steps ht hf
  obtain ⟨t', hstep, h⟩ := steps_cons h
  obtain ⟨t₂, htick, h⟩ := steps_cons h
  cases h
  obtain ⟨s, hdrop⟩ := step_of_hasSeen (t := t) (i := 0) 603000 arriving_keepalive hs
  cases hdrop.symm.trans hstep
  refine ⟨t, _, t'', _, ht, he, rfl, linkId_ne_pathRequest, .inl rfl, arriving_keepalive,
    keepalivePacket_isKeepalive, hstep, rfl, ?_, htick, hnone⟩
  intro h
  rw [he] at h
  exact absurd h (by decide)

end Transport
end Reticulum
