import Reticulum.Rlr.Responses

/-!
# Every request

The command of a request decides which handler runs; a request without one is an error that
touches nothing. From that, what any request does to the configuration and what it is answered.
-/

namespace Reticulum
open Msgpack
namespace ConfigProtocol

/-- The request is a map whose first pair is `cmd`; `n` more pairs are announced, and `r` is left
to read. -/
def Commands (request cmd : Bytes) (n : Nat) (r : Reader) : Prop :=
  ∃ r₁ r₂, Reader.readMapHeader ⟨request⟩ = some (n + 1, r₁) ∧
    r₁.readStr = some (ascii "cmd", r₂) ∧ r₂.readStr = some (cmd, r)

theorem Commands.unique {request cmd cmd' : Bytes} {n n' : Nat} {r r' : Reader}
    (h : Commands request cmd n r) (h' : Commands request cmd' n' r') :
    cmd = cmd' ∧ n = n' ∧ r = r' := by
  obtain ⟨r₁, r₂, h₁, h₂, h₃⟩ := h
  obtain ⟨r₁', r₂', h₁', h₂', h₃'⟩ := h'
  rw [h₁] at h₁'
  cases h₁'
  rw [h₂] at h₂'
  cases h₂'
  rw [h₃] at h₃'
  cases h₃'
  exact ⟨rfl, rfl, rfl⟩

section
variable {σ : Type} {fw : FwVersion} {request : Bytes} {n : Nat} {r : Reader}
  (cfg : Config) (transport : Option Transport) (save : SaveFn σ) (s : σ)

theorem handleRequest_ping (h : Commands request (ascii "ping") n r) :
    handleRequest fw request cfg transport save s = (lift (handlePing fw transport), cfg, s) := by
  obtain ⟨r₁, r₂, h₁, h₂, h₃⟩ := h
  simp only [handleRequest, h₁, h₂, h₃, ne_eq, not_true_eq_false, if_false, if_true]

theorem handleRequest_getConfig (h : Commands request (ascii "get_config") n r) :
    handleRequest fw request cfg transport save s = (handleGetConfig cfg, cfg, s) := by
  obtain ⟨r₁, r₂, h₁, h₂, h₃⟩ := h
  have hping : ascii "get_config" ≠ ascii "ping" := by decide
  simp only [handleRequest, h₁, h₂, h₃, ne_eq, not_true_eq_false, if_false, if_true, if_neg hping]

theorem handleRequest_commit (h : Commands request (ascii "commit") n r) :
    handleRequest fw request cfg transport save s =
      (lift (handleCommit cfg save s).1, cfg, (handleCommit cfg save s).2) := by
  obtain ⟨r₁, r₂, h₁, h₂, h₃⟩ := h
  have hping : ascii "commit" ≠ ascii "ping" := by decide
  have hget : ascii "commit" ≠ ascii "get_config" := by decide
  simp only [handleRequest, h₁, h₂, h₃, ne_eq, not_true_eq_false, if_false, if_true, if_neg hping,
    if_neg hget]

theorem handleRequest_setConfig (h : Commands request (ascii "set_config") n r) :
    handleRequest fw request cfg transport save s =
      (lift (handleSetConfig r cfg n).1, (handleSetConfig r cfg n).2, s) := by
  obtain ⟨r₁, r₂, h₁, h₂, h₃⟩ := h
  have hping : ascii "set_config" ≠ ascii "ping" := by decide
  have hget : ascii "set_config" ≠ ascii "get_config" := by decide
  have hcommit : ascii "set_config" ≠ ascii "commit" := by decide
  simp only [handleRequest, h₁, h₂, h₃, ne_eq, not_true_eq_false, if_false, if_true, if_neg hping,
    if_neg hget, if_neg hcommit]

/-- A request with no command of the four changes nothing. -/
theorem handleRequest_other (h : ∀ cmd n r, Commands request cmd n r → cmd ≠ ascii "ping" ∧
    cmd ≠ ascii "get_config" ∧ cmd ≠ ascii "commit" ∧ cmd ≠ ascii "set_config") :
    ∃ msg, (ascii msg).length < 256 ∧ handleRequest fw request cfg transport save s =
      (lift (errorResponse msg), cfg, s) := by
  cases h₁ : Reader.readMapHeader ⟨request⟩ with
  | none => exact ⟨"expected msgpack map at top level", by decide, by simp only [handleRequest, h₁]⟩
  | some p =>
    obtain ⟨n, r₁⟩ := p
    cases n with
    | zero => exact ⟨"empty request map", by decide, by simp only [handleRequest, h₁]⟩
    | succ n =>
      cases h₂ : r₁.readStr with
      | none =>
        exact ⟨"expected string key at position 0", by decide, by simp only [handleRequest, h₁, h₂]⟩
      | some p =>
        obtain ⟨firstKey, r₂⟩ := p
        by_cases hkey : firstKey = ascii "cmd"
        swap
        · refine ⟨"first map key must be 'cmd'", by decide, ?_⟩
          simp only [handleRequest, h₁, h₂, ne_eq, hkey, not_false_eq_true, if_true]
        subst hkey
        cases h₃ : r₂.readStr with
        | none =>
          refine ⟨"'cmd' value must be a string", by decide, ?_⟩
          simp only [handleRequest, h₁, h₂, h₃, ne_eq, not_true_eq_false, if_false]
        | some p =>
          obtain ⟨cmd, r⟩ := p
          obtain ⟨hping, hget, hcommit, hset⟩ := h cmd n r ⟨r₁, r₂, h₁, h₂, h₃⟩
          refine ⟨"unknown command", by decide, ?_⟩
          simp only [handleRequest, h₁, h₂, h₃, ne_eq, not_true_eq_false, if_false, if_neg hping,
            if_neg hget, if_neg hcommit, if_neg hset]

end

theorem Commands.rest_lt {request cmd : Bytes} {n : Nat} {r : Reader}
    (h : Commands request cmd n r) : r.rest.length < request.length := by
  obtain ⟨r₁, r₂, h₁, h₂, h₃⟩ := h
  have hlt₁ := Reader.readHeader_lt h₁
  have hlt₂ := Reader.readStr_lt h₂
  have hlt₃ := Reader.readStr_lt h₃
  dsimp only at hlt₁
  omega

theorem terminated_setName (name : DisplayName) (v : Bytes) : 0 ∈ (setName name v).1 := by
  simp [setName]

theorem Terminated.apply {cfg : Config} (h : Terminated cfg) (x : Setting) :
    Terminated (x.apply cfg) := by
  cases x with
  | int f v => cases f <;> exact h
  | battMult bits => exact h
  | displayName v => exact terminated_setName cfg.displayName v

theorem Terminated.applyAll {cfg : Config} (h : Terminated cfg) (ss : List Setting) :
    Terminated (applyAll cfg ss) := by
  induction ss generalizing cfg with
  | nil => exact h
  | cons x ss ih => exact ih (h.apply x)

/-- What a request is answered, `ok` and the pairs behind it, and what it makes of the
configuration. -/
inductive Served (request : Bytes) (cfg : Config) : Bool → List (Bytes × Value) → Config → Prop
  | ping {n : Nat} {r : Reader} (h : Commands request (ascii "ping") n r)
    (ps : List (Bytes × Value)) : Served request cfg true ps cfg
  | getConfig {n : Nat} {r : Reader} (h : Commands request (ascii "get_config") n r) :
    Served request cfg true (report cfg) cfg
  | commitFailed {n : Nat} {r : Reader} (h : Commands request (ascii "commit") n r) (msg : Bytes) :
    Served request cfg false [(ascii "err", .str msg)] cfg
  | committed {n : Nat} {r : Reader} (h : Commands request (ascii "commit") n r) :
    Served request cfg true [] cfg
  | set {n : Nat} {r r' : Reader} {ss : List Setting}
    (h : Commands request (ascii "set_config") n r) (hpairs : Pairs n r ss r') :
    Served request cfg true [(ascii "set", .uint (UInt16.ofNat ss.length).toNat)]
      (applyAll cfg ss)
  | malformed {n m : Nat} {r r' : Reader} {ss : List Setting}
    (h : Commands request (ascii "set_config") n r) (hm : m < n) (hpairs : Pairs m r ss r')
    (hstuck : ∀ ss' r'', ¬Pairs 1 r' ss' r'') (msg : Bytes) :
    Served request cfg false [(ascii "err", .str msg)] (applyAll cfg ss)
  | other (h : ∀ cmd n r, Commands request cmd n r → cmd ≠ ascii "ping" ∧
      cmd ≠ ascii "get_config" ∧ cmd ≠ ascii "commit" ∧ cmd ≠ ascii "set_config") (msg : Bytes) :
    Served request cfg false [(ascii "err", .str msg)] cfg

theorem no_command {request : Bytes} (hping : ¬∃ n r, Commands request (ascii "ping") n r)
    (hget : ¬∃ n r, Commands request (ascii "get_config") n r)
    (hcommit : ¬∃ n r, Commands request (ascii "commit") n r)
    (hset : ¬∃ n r, Commands request (ascii "set_config") n r) :
    ∀ cmd n r, Commands request cmd n r → cmd ≠ ascii "ping" ∧
      cmd ≠ ascii "get_config" ∧ cmd ≠ ascii "commit" ∧ cmd ≠ ascii "set_config" := by
  intro cmd n r h
  refine ⟨?_, ?_, ?_, ?_⟩
  · rintro rfl
    exact hping ⟨n, r, h⟩
  · rintro rfl
    exact hget ⟨n, r, h⟩
  · rintro rfl
    exact hcommit ⟨n, r, h⟩
  · rintro rfl
    exact hset ⟨n, r, h⟩

section
variable {σ : Type} {fw : FwVersion} {request : Bytes} {cfg : Config}
  (transport : Option Transport) (save : SaveFn σ) (s : σ)

/-- A request that is answered: with what bytes, and what they say. -/
def Serves (fw : FwVersion) (request : Bytes) (cfg : Config) (transport : Option Transport)
    (save : SaveFn σ) (s : σ) : Prop :=
  ∃ response cfg' s' b ps,
    handleRequest fw request cfg transport save s = (.ok response, cfg', s') ∧
    decodeResponse response = some (okPair b :: ps) ∧ Served request cfg b ps cfg'

theorem serves_commit {n : Nat} {r : Reader} (h : Commands request (ascii "commit") n r) :
    Serves fw request cfg transport save s := by
  have hrun : handleRequest fw request cfg transport save s = _ :=
    handleRequest_commit cfg transport save s h
  rcases handleCommit_answers cfg save s with ⟨msg, bytes, hok, hdecode⟩ | ⟨bytes, hok, hdecode⟩
  · rw [hok] at hrun
    exact ⟨bytes, cfg, _, false, _, hrun, hdecode, .commitFailed h msg⟩
  · rw [hok] at hrun
    exact ⟨bytes, cfg, _, true, _, hrun, hdecode, .committed h⟩

theorem serves_setConfig {n : Nat} {r : Reader} (h : Commands request (ascii "set_config") n r) :
    Serves fw request cfg transport save s := by
  have hrun : handleRequest fw request cfg transport save s = _ :=
    handleRequest_setConfig cfg transport save s h
  rcases applySetFields_cases n r cfg 0 with
    ⟨ss, r', hpairs, happly⟩ | ⟨m, ss, r', hm, hpairs, hstuck, happly⟩
  · obtain ⟨hcfg', bytes, hok, hdecode⟩ := handleSetConfig_applied happly
    rw [hok, hcfg'] at hrun
    rw [Nat.zero_add] at hdecode
    exact ⟨bytes, _, s, true, _, hrun, hdecode, .set h hpairs⟩
  · have hmsg : (ascii "malformed set_config payload").length < 256 := by decide
    obtain ⟨bytes, hok, hdecode⟩ := errorResponse_answers hmsg
    rw [handleSetConfig_malformed happly, hok] at hrun
    exact ⟨bytes, _, s, false, _, hrun, hdecode, .malformed h hm hpairs hstuck _⟩

theorem serves (hfw : fw.length < 256) (hcfg : Terminated cfg) :
    Serves fw request cfg transport save s := by
  by_cases hping : ∃ n r, Commands request (ascii "ping") n r
  · obtain ⟨n, r, h⟩ := hping
    obtain ⟨ps, bytes, hok, hdecode⟩ := handlePing_answers hfw transport
    have hrun : handleRequest fw request cfg transport save s = _ :=
      handleRequest_ping cfg transport save s h
    rw [hok] at hrun
    exact ⟨bytes, cfg, s, true, ps, hrun, hdecode, .ping h ps⟩
  by_cases hget : ∃ n r, Commands request (ascii "get_config") n r
  · obtain ⟨n, r, h⟩ := hget
    obtain ⟨bytes, hok, hdecode⟩ := handleGetConfig_answers hcfg
    have hrun : handleRequest fw request cfg transport save s = _ :=
      handleRequest_getConfig cfg transport save s h
    rw [hok] at hrun
    exact ⟨bytes, cfg, s, true, _, hrun, hdecode, .getConfig h⟩
  by_cases hcommit : ∃ n r, Commands request (ascii "commit") n r
  · obtain ⟨n, r, h⟩ := hcommit
    exact serves_commit transport save s h
  by_cases hset : ∃ n r, Commands request (ascii "set_config") n r
  · obtain ⟨n, r, h⟩ := hset
    exact serves_setConfig transport save s h
  have hother := no_command hping hget hcommit hset
  obtain ⟨msg, hmsg, hrun⟩ : ∃ msg, _ ∧ handleRequest fw request cfg transport save s = _ :=
    handleRequest_other cfg transport save s hother
  obtain ⟨bytes, hok, hdecode⟩ := errorResponse_answers hmsg
  rw [hok] at hrun
  exact ⟨bytes, cfg, s, false, _, hrun, hdecode, .other hother _⟩

theorem handleRequest_keeps (hset : ∀ n r, ¬Commands request (ascii "set_config") n r) :
    (handleRequest fw request cfg transport save s).2.1 = cfg := by
  by_cases hping : ∃ n r, Commands request (ascii "ping") n r
  · obtain ⟨n, r, h⟩ := hping
    rw [handleRequest_ping cfg transport save s h]
  by_cases hget : ∃ n r, Commands request (ascii "get_config") n r
  · obtain ⟨n, r, h⟩ := hget
    rw [handleRequest_getConfig cfg transport save s h]
  by_cases hcommit : ∃ n r, Commands request (ascii "commit") n r
  · obtain ⟨n, r, h⟩ := hcommit
    rw [handleRequest_commit cfg transport save s h]
  have hnone : ¬∃ n r, Commands request (ascii "set_config") n r := by
    rintro ⟨n, r, h⟩
    exact hset n r h
  have hother := no_command hping hget hcommit hnone
  obtain ⟨msg, -, hrun⟩ : ∃ msg, _ ∧ handleRequest fw request cfg transport save s = _ :=
    handleRequest_other cfg transport save s hother
  rw [hrun]

end

theorem Served.terminated {request : Bytes} {cfg cfg' : Config} {b : Bool}
    {ps : List (Bytes × Value)} (h : Served request cfg b ps cfg') (hcfg : Terminated cfg) :
    Terminated cfg' := by
  cases h with
  | set h hpairs => exact hcfg.applyAll _
  | malformed h hm hpairs hstuck msg => exact hcfg.applyAll _
  | _ => exact hcfg

theorem Served.error {request : Bytes} {cfg cfg' : Config} {ps : List (Bytes × Value)}
    (h : Served request cfg false ps cfg') : ∃ msg, ps = [(ascii "err", .str msg)] := by
  cases h with
  | _ => exact ⟨_, rfl⟩

/-- The count of a successful `set_config` is that of the settings it found, and they are what was
applied. -/
theorem Served.settings {request : Bytes} {cfg cfg' : Config} {ps : List (Bytes × Value)}
    (h : Served request cfg true ps cfg') (hlen : request.length ≤ 1024) {n : Nat} {r : Reader}
    (hcmd : Commands request (ascii "set_config") n r) : ∃ ss r', Pairs n r ss r' ∧
      cfg' = applyAll cfg ss ∧ ps = [(ascii "set", .uint ss.length)] := by
  cases h with
  | ping h ps => exact absurd (h.unique hcmd).1 (by decide)
  | getConfig h => exact absurd (h.unique hcmd).1 (by decide)
  | committed h => exact absurd (h.unique hcmd).1 (by decide)
  | @set n' r₁ r' ss h hpairs =>
    obtain ⟨-, rfl, rfl⟩ := h.unique hcmd
    have hcount : (UInt16.ofNat ss.length).toNat = ss.length := by
      have h₁ := hpairs.length_le
      have h₂ := h.rest_lt
      rw [UInt16.toNat_ofNat']
      exact Nat.mod_eq_of_lt (by omega)
    rw [hcount]
    exact ⟨ss, r', hpairs, rfl, rfl⟩

/-- Whatever the request, a response comes back that decodes to its end as one map: `ok` first,
then for a failure just the reason, and for a `set_config` the number of settings applied. -/
theorem handleRequest_decodes {σ : Type} (fw : FwVersion) (request : Bytes) (cfg : Config)
    (transport : Option Transport) (save : SaveFn σ) (s : σ) (hfw : fw.length < 256)
    (hlen : request.length ≤ 1024) (hcfg : Terminated cfg) :
    ∃ response cfg' s' b ps,
      handleRequest fw request cfg transport save s = (.ok response, cfg', s') ∧
      Terminated cfg' ∧ decodeResponse response = some (okPair b :: ps) ∧
      (b = false → ∃ msg, ps = [(ascii "err", .str msg)]) ∧
      (∀ n r, Commands request (ascii "set_config") n r → b = true →
        ∃ ss r', Pairs n r ss r' ∧ cfg' = applyAll cfg ss ∧
          ps = [(ascii "set", .uint ss.length)]) := by
  obtain ⟨response, cfg', s', b, ps, hrun, hdecode, hserved⟩ :
      Serves fw request cfg transport save s := serves transport save s hfw hcfg
  refine ⟨response, cfg', s', b, ps, hrun, hserved.terminated hcfg, hdecode, ?_, ?_⟩
  · rintro rfl
    exact hserved.error
  · rintro n r hcmd rfl
    exact hserved.settings hlen hcmd

/-- A request for the defaults at SF9. -/
def sfRequest : Bytes :=
  [0x82] ++ (0xa3 :: ascii "cmd") ++ (0xaa :: ascii "set_config") ++ (0xa2 :: ascii "sf") ++ [9]

theorem handleRequest_decodes_sf : ∃ response cfg' s' b ps,
    handleRequest (ascii "dev") sfRequest {} none (none : SaveFn Unit) () =
      (.ok response, cfg', s') ∧
    Terminated cfg' ∧ decodeResponse response = some (okPair b :: ps) ∧
    (b = false → ∃ msg, ps = [(ascii "err", .str msg)]) ∧
    (∀ n r, Commands sfRequest (ascii "set_config") n r → b = true →
      ∃ ss r', Pairs n r ss r' ∧ cfg' = applyAll {} ss ∧
        ps = [(ascii "set", .uint ss.length)]) :=
  handleRequest_decodes _ _ _ _ _ _ (by decide) (by decide) (show (0 : UInt8) ∈ _ by decide)

/-- A failed request leaves the configuration alone, unless it is a `set_config`: then the pairs
before the one that could not be read have been applied, and those only. -/
theorem handleRequest_failed {σ : Type} (fw : FwVersion) (request : Bytes) (cfg : Config)
    (transport : Option Transport) (save : SaveFn σ) (s : σ) {response : Bytes} {cfg' : Config}
    {s' : σ} {ps : List (Bytes × Value)}
    (hrun : handleRequest fw request cfg transport save s = (.ok response, cfg', s'))
    (hfailed : decodeResponse response = some (okPair false :: ps)) :
    ((∀ n r, ¬Commands request (ascii "set_config") n r) → cfg' = cfg) ∧
    (∀ n r, Commands request (ascii "set_config") n r →
      ∃ m ss r', m < n ∧ Pairs m r ss r' ∧ (∀ ss' r'', ¬Pairs 1 r' ss' r'') ∧
        cfg' = applyAll cfg ss) := by
  constructor
  · intro hset
    have hkeeps : (handleRequest fw request cfg transport save s).2.1 = cfg :=
      handleRequest_keeps transport save s hset
    rw [hrun] at hkeeps
    exact hkeeps
  · intro n r h
    rw [handleRequest_setConfig cfg transport save s h] at hrun
    rcases applySetFields_cases n r cfg 0 with
      ⟨ss, r', hpairs, happly⟩ | ⟨m, ss, r', hm, hpairs, hstuck, happly⟩
    · -- all pairs were read, so the response is no failure
      obtain ⟨-, bytes, hok, hdecode⟩ := handleSetConfig_applied happly
      rw [hok] at hrun
      cases hrun
      rw [hdecode] at hfailed
      cases hfailed
    · rw [handleSetConfig_malformed happly] at hrun
      cases hrun
      exact ⟨m, ss, r', hm, hpairs, hstuck, rfl⟩

/-- `freq_hz` is 915 MHz, and `sf` is a string. -/
def halfRequest : Bytes :=
  [0x83] ++ (0xa3 :: ascii "cmd") ++ (0xaa :: ascii "set_config") ++
    (0xa7 :: ascii "freq_hz") ++ [0xce, 0x36, 0x89, 0xca, 0xc0] ++ (0xa2 :: ascii "sf") ++
    (0xa1 :: ascii "9")

def malformedResponse : Bytes :=
  [0x82] ++ (0xa2 :: ascii "ok") ++ [0xc2] ++ (0xa3 :: ascii "err") ++
    (0xbc :: ascii "malformed set_config payload")

theorem handleRequest_half : handleRequest (ascii "dev") halfRequest {} none
    (none : SaveFn Unit) () = (.ok malformedResponse, { freqHz := 915000000 }, ()) := by
  decide +kernel

theorem decode_malformedResponse : decodeResponse malformedResponse =
    some [okPair false, (ascii "err", .str (ascii "malformed set_config payload"))] := by
  decide +kernel

/-- The request fails at its last pair, and the frequency has changed. -/
theorem failed_set_config_applies : ∃ response ps,
    handleRequest (ascii "dev") halfRequest {} none (none : SaveFn Unit) () =
      (.ok response, { freqHz := 915000000 }, ()) ∧
    decodeResponse response = some (okPair false :: ps) ∧
    ({ freqHz := 915000000 } : Config) ≠ {} :=
  ⟨_, _, handleRequest_half, decode_malformedResponse, by decide⟩

theorem handleRequest_failed_half :
    ((∀ n r, ¬Commands halfRequest (ascii "set_config") n r) →
      ({ freqHz := 915000000 } : Config) = {}) ∧
    (∀ n r, Commands halfRequest (ascii "set_config") n r →
      ∃ m ss r', m < n ∧ Pairs m r ss r' ∧ (∀ ss' r'', ¬Pairs 1 r' ss' r'') ∧
        ({ freqHz := 915000000 } : Config) = applyAll {} ss) :=
  handleRequest_failed _ _ _ _ _ _ handleRequest_half decode_malformedResponse

end ConfigProtocol
end Reticulum
