import Reticulum.Rlr.Requests
import Reticulum.Rlr.SaveFaults

/-!
# Configuration sessions

A session is a run of well-formed requests. Every `set_config` of it succeeds, `get_config` reports
for every field what was last set, and what is loaded after the last successful commit is the
configuration of that commit.
-/

namespace Reticulum
open Msgpack MsgpackFormat Endian

/-! ### Well-formed requests -/

/-- The values of the field's type. -/
def IntField.InRange : IntField → Int → Prop
  | .freqHz, v => 0 ≤ v ∧ v < 2 ^ 32
  | .bwHz, v => 0 ≤ v ∧ v < 2 ^ 32
  | .sf, v => 0 ≤ v ∧ v < 2 ^ 8
  | .cr, v => 0 ≤ v ∧ v < 2 ^ 8
  | .txpDbm, v => -2 ^ 7 ≤ v ∧ v < 2 ^ 7
  | .latUdeg, v => -2 ^ 31 ≤ v ∧ v < 2 ^ 31
  | .lonUdeg, v => -2 ^ 31 ≤ v ∧ v < 2 ^ 31
  | .altM, v => -2 ^ 31 ≤ v ∧ v < 2 ^ 31

def Setting.InRange : Setting → Prop
  | .int f v => f.InRange v
  | .battMult _ => True
  | .displayName _ => True

/-- The bytes of one pair of a `set_config`; `none` is a pair with a key the endpoint does not
know. -/
inductive SettingForm : Option Setting → Bytes → Prop
  | int {f : IntField} {v : Int} {k b : Bytes} (hk : StrForm f.key k) (hv : f.InRange v)
    (hb : IntForm v b) : SettingForm (some (.int f v)) (k ++ b)
  | battMult {bits : UInt32} {k : Bytes} (hk : StrForm battMultKey k) :
    SettingForm (some (.battMult bits)) (k ++ 0xca :: toBe 4 bits.toNat)
  | displayName {s k b : Bytes} (hk : StrForm displayNameKey k) (hb : StrForm s b) :
    SettingForm (some (.displayName s)) (k ++ b)
  | unknown {key k b : Bytes} (hnew : ¬KnownKey key) (hk : StrForm key k) (hb : Elems 1 b) :
    SettingForm none (k ++ b)

inductive SettingsForm : List (Option Setting) → Bytes → Prop
  | nil : SettingsForm [] []
  | cons {x : Option Setting} {xs : List (Option Setting)} {b bs : Bytes} (hx : SettingForm x b)
    (rest : SettingsForm xs bs) : SettingsForm (x :: xs) (b ++ bs)

inductive Request where
  | ping
  | getConfig
  | commit
  | setConfig (pairs : List (Option Setting))

namespace Request

def command : Request → Bytes
  | ping => ascii "ping"
  | getConfig => ascii "get_config"
  | commit => ascii "commit"
  | setConfig _ => ascii "set_config"

def settings : Request → List Setting
  | setConfig pairs => pairs.filterMap id
  | _ => []

/-- The bytes of a request: the map header, the command, and for a `set_config` its pairs. What
follows is not looked at. -/
inductive Form : Request → Bytes → Prop
  | simple {q : Request} {n : Nat} {h c v : Bytes} (rest : Bytes)
    (hq : ∀ pairs, q ≠ setConfig pairs) (hh : MapHead (n + 1) h) (hc : StrForm (ascii "cmd") c)
    (hv : StrForm q.command v) :
    Form q (h ++ (c ++ (v ++ rest)))
  | setConfig {pairs : List (Option Setting)} {h c v bs : Bytes} (rest : Bytes)
    (hh : MapHead (pairs.length + 1) h) (hc : StrForm (ascii "cmd") c)
    (hv : StrForm (ascii "set_config") v) (hbs : SettingsForm pairs bs) :
    Form (setConfig pairs) (h ++ (c ++ (v ++ (bs ++ rest))))

end Request

theorem IntField.InRange.lt {f : IntField} {v : Int} (h : f.InRange v) : v < 2 ^ 63 := by
  cases f <;> simp only [IntField.InRange] at h <;> omega

/-- A well-formed list of pairs is read as the settings in it. -/
theorem SettingsForm.pairs {pairs : List (Option Setting)} {bs : Bytes} (h : SettingsForm pairs bs)
    (t : Bytes) : Pairs pairs.length ⟨bs ++ t⟩ (pairs.filterMap id) ⟨t⟩ := by
  induction h with
  | nil => exact .done
  | @cons x xs b bs hx rest ih =>
    rw [List.append_assoc, List.length_cons]
    cases hx with
    | int hk hv hb =>
      rw [List.append_assoc]
      exact .int (Reader.readStr_form _ hk) (Reader.readInt_form _ hb hv.lt) ih
    | battMult hk =>
      rw [List.append_assoc]
      exact .battMult (Reader.readStr_form _ hk) (Reader.readFloat32_form _ _) ih
    | displayName hk hb =>
      rw [List.append_assoc]
      exact .displayName (Reader.readStr_form _ hk) (Reader.readStr_form _ hb) ih
    | unknown hnew hk hb =>
      rw [List.append_assoc]
      exact .unknown (Reader.readStr_form _ hk) hnew (Reader.skip_elem hb _) ih

namespace ConfigProtocol

theorem commands_form {n : Nat} {h c v cmd rest : Bytes} (hh : MapHead (n + 1) h)
    (hc : StrForm (ascii "cmd") c) (hv : StrForm cmd v) :
    Commands (h ++ (c ++ (v ++ rest))) cmd n ⟨rest⟩ :=
  ⟨_, _, Reader.readMapHeader_form _ hh, Reader.readStr_form _ hc, Reader.readStr_form _ hv⟩

/-- A well-formed request is its command, and its settings can be read to the last. -/
theorem commands_of_form {q : Request} {bytes : Bytes} (h : q.Form bytes) : ∃ n r,
    Commands bytes q.command n r ∧
      ∀ pairs, q = .setConfig pairs → ∃ r', Pairs n r q.settings r' := by
  cases h with
  | simple rest hq hh hc hv =>
    refine ⟨_, _, commands_form hh hc hv, ?_⟩
    intro pairs hpairs
    exact absurd hpairs (hq pairs)
  | setConfig rest hh hc hv hbs =>
    refine ⟨_, _, commands_form hh hc hv, ?_⟩
    intro pairs hpairs
    exact ⟨_, hbs.pairs rest⟩

end ConfigProtocol

/-! ### The session -/

/-- A request of the session and its bytes, its response, and the configuration after it. -/
structure Exchange where
  request : Request
  bytes : Bytes
  response : Bytes
  cfg : Config

/-- The response opens with `ok` being true. -/
def AnsweredOk (response : Bytes) : Prop :=
  ∃ ps, decodeResponse response = some (ConfigProtocol.okPair true :: ps)

section
variable {σ : Type} (fw : FwVersion) (transport : Option Transport) (save : SaveFn σ)
  (cfg₀ : Config) (s₀ : σ)

inductive Session : List Exchange → Config → σ → Prop
  | start : Session [] cfg₀ s₀
  | serve {log : List Exchange} {cfg cfg' : Config} {s s' : σ} {q : Request}
    {bytes response : Bytes} (before : Session log cfg s) (hq : q.Form bytes)
    (hrun : ConfigProtocol.handleRequest fw bytes cfg transport save s = (.ok response, cfg', s')) :
    Session (log ++ [⟨q, bytes, response, cfg'⟩]) cfg' s'

end

def settingsOf (log : List Exchange) : List Setting := log.flatMap fun e => e.request.settings

/-! ### What is reported -/

inductive Field where
  | int (f : IntField)
  | battMult
  | displayName
deriving DecidableEq

namespace Field

/-- The fields `get_config` reports, in its order. -/
def all : List Field :=
  [int .freqHz, int .bwHz, int .sf, int .cr, int .txpDbm, int .latUdeg, int .lonUdeg, int .altM,
    battMult, displayName]

def key : Field → Bytes
  | int f => f.key
  | battMult => battMultKey
  | displayName => displayNameKey

end Field

namespace Setting

def field : Setting → Field
  | int f _ => .int f
  | battMult _ => .battMult
  | displayName _ => .displayName

/-- What a setting is reported as: an integer as its `uint32` bit pattern, a name cut to 31 bytes
and at its first NUL. -/
def reported : Setting → Value
  | int _ v => .uint (v % 2 ^ 32).toNat
  | battMult bits => .float32 bits
  | displayName s => .str ((s.take 31).takeWhile (· ≠ 0))

end Setting

def Config.reported (cfg : Config) : Field → Value
  | .int .freqHz => .uint cfg.freqHz.toNat
  | .int .bwHz => .uint cfg.bwHz.toNat
  | .int .sf => .uint cfg.sf.toNat
  | .int .cr => .uint cfg.cr.toNat
  | .int .txpDbm => .uint cfg.txpDbm.toInt32.toUInt32.toNat
  | .int .latUdeg => .uint cfg.latitudeUdeg.toUInt32.toNat
  | .int .lonUdeg => .uint cfg.longitudeUdeg.toUInt32.toNat
  | .int .altM => .uint cfg.altitudeM.toUInt32.toNat
  | .battMult => .float32 cfg.battMult
  | .displayName => .str (cfg.displayName.1.takeWhile (· ≠ 0))

/-- The value of the last setting of the field, or the initial one. -/
def lastReported (cfg₀ : Config) (ss : List Setting) (f : Field) : Value :=
  match ss.reverse.find? fun x => x.field = f with
  | some x => x.reported
  | none => cfg₀.reported f

theorem report_eq (cfg : Config) :
    ConfigProtocol.report cfg = Field.all.map fun f => (f.key, cfg.reported f) := rfl

theorem takeWhile_stop {l : Bytes} (t : Bytes) :
    (l ++ 0 :: t).takeWhile (· ≠ 0) = l.takeWhile (· ≠ 0) := by
  induction l with
  | nil => rfl
  | cons b l ih =>
    by_cases hb : b = 0
    · subst hb
      rfl
    · simp only [List.cons_append, List.takeWhile_cons, ih]

theorem takeWhile_setName (name : DisplayName) (v : Bytes) :
    (ConfigProtocol.setName name v).1.takeWhile (· ≠ 0) = (v.take 31).takeWhile (· ≠ 0) := by
  have hcut : v.take (if v.length < 31 then v.length else 31) = v.take 31 := by
    split
    · rw [List.take_length, List.take_of_length_le (by omega)]
    · rfl
  show (v.take _ ++ 0 :: _).takeWhile (· ≠ 0) = _
  rw [takeWhile_stop, hcut]

theorem toNat_uint32 (v : Int) : (UInt32.ofInt v).toNat = (v % 2 ^ 32).toNat := by
  have h₀ := Int.emod_nonneg v (show (2 ^ 32 : Int) ≠ 0 by decide)
  have h₁ := Int.emod_lt_of_pos v (show (0 : Int) < 2 ^ 32 by decide)
  show (UInt32.ofNat (v % 2 ^ 32).toNat).toNat = _
  rw [UInt32.toNat_ofNat']
  exact Nat.mod_eq_of_lt (by omega)

theorem toNat_uint8 {v : Int} (h₀ : 0 ≤ v) (h₁ : v < 2 ^ 8) :
    (UInt8.ofInt v).toNat = (v % 2 ^ 32).toNat := by
  show (UInt8.ofNat (v % 2 ^ 8).toNat).toNat = _
  rw [UInt8.toNat_ofNat', Int.emod_eq_of_lt h₀ h₁, Int.emod_eq_of_lt h₀ (by omega)]
  exact Nat.mod_eq_of_lt (by omega)

theorem toNat_int32 (v : Int) : (Int32.ofInt v).toUInt32.toNat = (v % 2 ^ 32).toNat := by
  show (BitVec.ofInt 32 v).toNat = _
  rw [BitVec.toNat_ofInt]
  rfl

theorem toNat_int8 {v : Int} (h₀ : -2 ^ 7 ≤ v) (h₁ : v < 2 ^ 7) :
    (Int8.ofInt v).toInt32.toUInt32.toNat = (v % 2 ^ 32).toNat := by
  have hmin : Int8.minValue.toInt ≤ v := h₀
  have hmax : v ≤ Int8.maxValue.toInt := by
    show v ≤ 127
    omega
  rw [Int8.toInt32_ofInt hmin hmax, toNat_int32]

/-- A setting is reported from then on. -/
theorem reported_apply_self (cfg : Config) {x : Setting} (hx : x.InRange) :
    (x.apply cfg).reported x.field = x.reported := by
  cases x with
  | int f v =>
    cases f with
    | freqHz => exact congrArg Value.uint (toNat_uint32 v)
    | bwHz => exact congrArg Value.uint (toNat_uint32 v)
    | sf => exact congrArg Value.uint (toNat_uint8 hx.1 hx.2)
    | cr => exact congrArg Value.uint (toNat_uint8 hx.1 hx.2)
    | txpDbm => exact congrArg Value.uint (toNat_int8 hx.1 hx.2)
    | latUdeg => exact congrArg Value.uint (toNat_int32 v)
    | lonUdeg => exact congrArg Value.uint (toNat_int32 v)
    | altM => exact congrArg Value.uint (toNat_int32 v)
  | battMult bits => rfl
  | displayName v => exact congrArg Value.str (takeWhile_setName cfg.displayName v)

/-- A setting of one field leaves the others as they are. -/
theorem reported_apply_of_ne (cfg : Config) {x : Setting} {f : Field} (h : x.field ≠ f) :
    (x.apply cfg).reported f = cfg.reported f := by
  cases x with
  | int g v =>
    cases f with
    | int f => cases g <;> cases f <;> first | rfl | exact absurd rfl h
    | battMult => cases g <;> rfl
    | displayName => cases g <;> rfl
  | battMult bits =>
    cases f with
    | int f => cases f <;> rfl
    | battMult => exact absurd rfl h
    | displayName => rfl
  | displayName v =>
    cases f with
    | int f => cases f <;> rfl
    | battMult => rfl
    | displayName => exact absurd rfl h

theorem reported_applyAll (cfg : Config) {ss : List Setting} (hss : ∀ x ∈ ss, x.InRange)
    (f : Field) : (applyAll cfg ss).reported f = lastReported cfg ss f := by
  induction ss using List.reverseRecOn with
  | nil => rfl
  | append_singleton ss x ih =>
    have hx : x.InRange := hss x (by simp)
    have hrest : ∀ y ∈ ss, y.InRange := by
      intro y hy
      exact hss y (by simp [hy])
    have hlast : applyAll cfg (ss ++ [x]) = x.apply (applyAll cfg ss) := by
      rw [applyAll, List.foldl_append]
      rfl
    rw [hlast, lastReported, List.reverse_append, List.reverse_singleton, List.singleton_append]
    by_cases hf : x.field = f
    · rw [List.find?_cons_of_pos (by simpa using hf), ← hf]
      exact reported_apply_self _ hx
    · rw [List.find?_cons_of_neg (by simpa using hf), reported_apply_of_ne _ hf]
      exact ih hrest

/-! ### Sessions -/

theorem SettingsForm.inRange {pairs : List (Option Setting)} {bs : Bytes}
    (h : SettingsForm pairs bs) : ∀ x ∈ pairs.filterMap id, x.InRange := by
  induction h with
  | nil =>
    intro x hx
    simp at hx
  | @cons y xs b bs hy rest ih =>
    intro x hx
    rw [List.filterMap_cons] at hx
    cases hy with
    | int hk hv hb =>
      rcases List.mem_cons.mp hx with rfl | hx
      · exact hv
      · exact ih x hx
    | battMult hk =>
      rcases List.mem_cons.mp hx with rfl | hx
      · trivial
      · exact ih x hx
    | displayName hk hb =>
      rcases List.mem_cons.mp hx with rfl | hx
      · trivial
      · exact ih x hx
    | unknown hnew hk hb => exact ih x hx

theorem Request.Form.inRange {q : Request} {bytes : Bytes} (h : q.Form bytes) :
    ∀ x ∈ q.settings, x.InRange := by
  cases h with
  | simple rest hq hh hc hv =>
    intro x hx
    cases q with
    | setConfig pairs => exact absurd rfl (hq pairs)
    | _ => simp [Request.settings] at hx
  | setConfig rest hh hc hv hbs => exact hbs.inRange

namespace ConfigProtocol
variable {σ : Type} {fw : FwVersion} {transport : Option Transport} {save : SaveFn σ}
  {cfg cfg' : Config} {s s' : σ} {q : Request} {bytes response : Bytes}

theorem settings_of_form (hq : q.Form bytes)
    (hrun : handleRequest fw bytes cfg transport save s = (.ok response, cfg', s')) :
    cfg' = applyAll cfg q.settings ∧ ∀ pairs, q = .setConfig pairs → AnsweredOk response := by
  obtain ⟨n, r, hcmd, hpairs⟩ := commands_of_form hq
  cases q with
  | ping =>
    rw [handleRequest_ping cfg transport save s hcmd] at hrun
    exact ⟨(Prod.mk.inj (Prod.mk.inj hrun).2).1.symm, by simp⟩
  | getConfig =>
    rw [handleRequest_getConfig cfg transport save s hcmd] at hrun
    exact ⟨(Prod.mk.inj (Prod.mk.inj hrun).2).1.symm, by simp⟩
  | commit =>
    rw [handleRequest_commit cfg transport save s hcmd] at hrun
    exact ⟨(Prod.mk.inj (Prod.mk.inj hrun).2).1.symm, by simp⟩
  | setConfig pairs =>
    obtain ⟨r', hall⟩ := hpairs pairs rfl
    obtain ⟨hcfg', bytes', hok, hdecode⟩ :=
      handleSetConfig_applied (applySetFields_pairs hall cfg)
    rw [handleRequest_setConfig cfg transport save s hcmd, hcfg', hok] at hrun
    cases hrun
    exact ⟨rfl, fun _ _ => ⟨_, hdecode⟩⟩

theorem not_answeredOk_of_error {ps : List (Bytes × Value)}
    (h : decodeResponse response = some (okPair false :: ps)) : ¬AnsweredOk response := by
  rintro ⟨ps', hok⟩
  rw [h] at hok
  cases hok

/-- A commit is answered ok when the callback reports success. -/
theorem commit_of_form (hq : Request.commit.Form bytes)
    (hrun : handleRequest fw bytes cfg transport save s = (.ok response, cfg', s')) :
    (AnsweredOk response → ∃ f, save = some f ∧ f cfg s = (true, s')) ∧
      (¬AnsweredOk response → s' = s ∨ ∃ f, save = some f ∧ f cfg s = (false, s')) := by
  obtain ⟨n, r, hcmd, -⟩ := commands_of_form hq
  rw [handleRequest_commit cfg transport save s hcmd] at hrun
  obtain ⟨hresponse, hrest⟩ := Prod.mk.inj hrun
  have hs' := (Prod.mk.inj hrest).2
  cases save with
  | none =>
    obtain ⟨hs, bytes', hok, hdecode⟩ := handleCommit_none cfg s
    rw [hok] at hresponse
    cases hresponse
    refine ⟨fun h => absurd h (not_answeredOk_of_error hdecode), fun _ => .inl ?_⟩
    rw [← hs', hs]
  | some f =>
    cases hf : f cfg s with
    | mk done s₁ =>
      cases done with
      | false =>
        obtain ⟨hs, bytes', hok, hdecode⟩ := handleCommit_failed hf
        rw [hok] at hresponse
        cases hresponse
        refine ⟨fun h => absurd h (not_answeredOk_of_error hdecode), fun _ => .inr ⟨f, rfl, ?_⟩⟩
        rw [hf, ← hs', hs]
      | true =>
        obtain ⟨hs, bytes', hok, hdecode⟩ := handleCommit_saved hf
        rw [hok] at hresponse
        cases hresponse
        refine ⟨fun _ => ⟨f, rfl, ?_⟩, fun h => absurd ⟨_, hdecode⟩ h⟩
        rw [hf, ← hs', hs]

/-- Only a commit reaches the caller's state. -/
theorem state_of_form (hq : q.Form bytes) (hne : q ≠ .commit)
    (hrun : handleRequest fw bytes cfg transport save s = (.ok response, cfg', s')) : s' = s := by
  obtain ⟨n, r, hcmd, -⟩ := commands_of_form hq
  cases q with
  | ping =>
    rw [handleRequest_ping cfg transport save s hcmd] at hrun
    exact (Prod.mk.inj (Prod.mk.inj hrun).2).2.symm
  | getConfig =>
    rw [handleRequest_getConfig cfg transport save s hcmd] at hrun
    exact (Prod.mk.inj (Prod.mk.inj hrun).2).2.symm
  | commit => exact absurd rfl hne
  | setConfig pairs =>
    rw [handleRequest_setConfig cfg transport save s hcmd] at hrun
    exact (Prod.mk.inj (Prod.mk.inj hrun).2).2.symm

end ConfigProtocol

namespace Session
variable {σ : Type} {fw : FwVersion} {transport : Option Transport} {save : SaveFn σ}
  {cfg₀ cfg : Config} {s₀ s : σ} {log : List Exchange}

/-- The configuration is the first one with every setting so far applied. -/
theorem cfg_eq (h : Session fw transport save cfg₀ s₀ log cfg s) :
    cfg = applyAll cfg₀ (settingsOf log) ∧ (∀ x ∈ settingsOf log, x.InRange) ∧
      ∀ e ∈ log, ∀ pairs, e.request = .setConfig pairs → AnsweredOk e.response := by
  induction h with
  | start => exact ⟨rfl, by simp [settingsOf], by simp⟩
  | @serve log cfg cfg' s s' q bytes response before hq hrun ih =>
    obtain ⟨hcfg, hrange, hanswered⟩ := ih
    obtain ⟨hcfg', hok⟩ := ConfigProtocol.settings_of_form hq hrun
    have hlog : settingsOf (log ++ [⟨q, bytes, response, cfg'⟩]) =
        settingsOf log ++ q.settings := by
      simp [settingsOf]
    rw [hlog]
    refine ⟨?_, ?_, ?_⟩
    · rw [hcfg', hcfg, applyAll, applyAll, applyAll, List.foldl_append]
    · intro x hx
      rcases List.mem_append.mp hx with hx | hx
      · exact hrange x hx
      · exact hq.inRange x hx
    · intro e he pairs hpairs
      rcases List.mem_append.mp he with he | he
      · exact hanswered e he pairs hpairs
      · rw [List.mem_singleton.mp he] at hpairs ⊢
        exact hok pairs hpairs

theorem terminated (h : Session fw transport save cfg₀ s₀ log cfg s)
    (h₀ : ConfigProtocol.Terminated cfg₀) : ConfigProtocol.Terminated cfg := by
  rw [h.cfg_eq.1]
  exact h₀.applyAll _

theorem exists_session (hfw : fw.length < 256) (h₀ : ConfigProtocol.Terminated cfg₀)
    (qs : List (Request × Bytes)) (hqs : ∀ q ∈ qs, q.1.Form q.2) :
    ∃ log cfg s, Session fw transport save cfg₀ s₀ log cfg s ∧
      log.map (fun e => (e.request, e.bytes)) = qs := by
  induction qs using List.reverseRecOn with
  | nil => exact ⟨[], cfg₀, s₀, .start, rfl⟩
  | append_singleton qs q ih =>
    obtain ⟨log, cfg, s, hsession, hlog⟩ := ih fun q' hq' => hqs q' (by simp [hq'])
    have hq : q.1.Form q.2 := hqs q (by simp)
    obtain ⟨response, cfg', s', b, ps, hrun, -, -⟩ :
        ConfigProtocol.Serves fw q.2 cfg transport save s :=
      ConfigProtocol.serves transport save s hfw (hsession.terminated h₀)
    exact ⟨_, cfg', s', .serve hsession hq hrun, by simp [hlog]⟩

theorem getConfig_reports (h : Session fw transport save cfg₀ s₀ log cfg s)
    (h₀ : ConfigProtocol.Terminated cfg₀) {bytes : Bytes} (hq : Request.getConfig.Form bytes) :
    ∃ response, ConfigProtocol.handleRequest fw bytes cfg transport save s =
        (.ok response, cfg, s) ∧
      decodeResponse response = some (ConfigProtocol.okPair true ::
        Field.all.map fun f => (f.key, lastReported cfg₀ (settingsOf log) f)) := by
  obtain ⟨n, r, hcmd, -⟩ := ConfigProtocol.commands_of_form hq
  obtain ⟨response, hok, hdecode⟩ := ConfigProtocol.handleGetConfig_answers (h.terminated h₀)
  obtain ⟨hcfg, hrange, -⟩ := h.cfg_eq
  refine ⟨response, ?_, ?_⟩
  · rw [ConfigProtocol.handleRequest_getConfig cfg transport save s hcmd, hok]
  · have hreport : ∀ f, cfg.reported f = lastReported cfg₀ (settingsOf log) f := by
      intro f
      rw [hcfg]
      exact reported_applyAll cfg₀ hrange f
    simp only [hdecode, report_eq, hreport]

end Session

theorem version_applyAll (cfg : Config) (ss : List Setting) :
    (applyAll cfg ss).version = cfg.version := by
  induction ss generalizing cfg with
  | nil => rfl
  | cons x ss ih =>
    have hx : (x.apply cfg).version = cfg.version := by
      cases x with
      | int f v => cases f <;> rfl
      | battMult bits => rfl
      | displayName v => rfl
    exact (ih (x.apply cfg)).trans hx

/-- The firmware's callback, on a file system that fails no call. -/
def workingSave : SaveFn Fs := some fun cfg fs => ConfigStore.save fs {} cfg

namespace Session
variable {fw : FwVersion} {transport : Option Transport} {cfg₀ cfg : Config} {fs₀ fs : Fs}
  {log : List Exchange}

/-- From the last commit that was answered ok, what is loaded is the configuration it had. -/
theorem load_eq (h : Session fw transport workingSave cfg₀ fs₀ log cfg fs)
    (hversion : cfg₀.version = ({} : Config).version) {pre post : List Exchange} {e : Exchange}
    (hlog : log = pre ++ e :: post) (he : e.request = .commit) (hok : AnsweredOk e.response)
    (hlast : ∀ e' ∈ post, e'.request = .commit → ¬AnsweredOk e'.response) :
    ConfigStore.load fs {} = some (ConfigStore.stamped e.cfg) := by
  induction h generalizing post with
  | start => simp at hlog
  | @serve log cfg cfg' s s' q bytes response before hq hrun ih =>
    obtain ⟨hcfg', -⟩ := ConfigProtocol.settings_of_form hq hrun
    rcases List.eq_nil_or_concat post with rfl | ⟨post, e', rfl⟩
    · -- the exchange is the last one
      obtain ⟨rfl, hlast⟩ := List.append_inj' hlog rfl
      cases hlast
      dsimp only at he hok ⊢
      subst he
      obtain ⟨f, hf, hsaved⟩ := (ConfigProtocol.commit_of_form hq hrun).1 hok
      cases hf
      have hcfgversion : cfg.version = ({} : Config).version := by
        rw [before.cfg_eq.1, version_applyAll, hversion]
      have hload := (ConfigStore.keepsPromise_working s cfg).1
      dsimp only at hsaved
      rw [hsaved] at hload
      rw [hcfg']
      exact hload rfl hcfgversion
    · -- what came after it has left the file alone
      rw [List.concat_eq_append, ← List.cons_append, ← List.append_assoc] at hlog
      obtain ⟨hpre, hlast'⟩ := List.append_inj' hlog rfl
      cases hlast'
      have hbefore : ConfigStore.load s {} = some (ConfigStore.stamped e.cfg) :=
        ih hpre fun e' he' => hlast e' (by simp [he'])
      by_cases hcommit : q = .commit
      swap
      · rw [ConfigProtocol.state_of_form hq hcommit hrun]
        exact hbefore
      subst hcommit
      have hfailed : ¬AnsweredOk response := hlast ⟨.commit, bytes, response, cfg'⟩ (by simp) rfl
      rcases (ConfigProtocol.commit_of_form hq hrun).2 hfailed with rfl | ⟨f, hf, hfalse⟩
      · exact hbefore
      · cases hf
        have hload := (ConfigStore.keepsPromise_working s cfg).2
        dsimp only at hfalse
        rw [hfalse] at hload
        rw [hload rfl]
        exact hbefore

end Session

/-- Configuration sessions are faithful: the bytes of any well-formed requests are served, every
`set_config` of it is answered ok, `get_config` reports what was last set, and with a file system
that works the last commit answered ok is what is loaded. -/
theorem sessions_faithful {σ : Type} (fw : FwVersion) (transport : Option Transport)
    (save : SaveFn σ) (s₀ : σ) (fs₀ : Fs) (cfg₀ : Config) (hfw : fw.length < 256)
    (hversion : cfg₀.version = ({} : Config).version) (h₀ : ConfigProtocol.Terminated cfg₀) :
    (∀ qs : List (Request × Bytes), (∀ q ∈ qs, q.1.Form q.2) → ∃ log cfg s,
      Session fw transport save cfg₀ s₀ log cfg s ∧
        log.map (fun e => (e.request, e.bytes)) = qs) ∧
    (∀ log cfg s, Session fw transport save cfg₀ s₀ log cfg s →
      (∀ e ∈ log, ∀ pairs, e.request = .setConfig pairs → AnsweredOk e.response) ∧
      ∀ bytes, Request.getConfig.Form bytes → ∃ response,
        ConfigProtocol.handleRequest fw bytes cfg transport save s = (.ok response, cfg, s) ∧
        decodeResponse response = some (ConfigProtocol.okPair true ::
          Field.all.map fun f => (f.key, lastReported cfg₀ (settingsOf log) f))) ∧
    (∀ log cfg fs, Session fw transport workingSave cfg₀ fs₀ log cfg fs →
      ∀ pre e post, log = pre ++ e :: post → e.request = .commit → AnsweredOk e.response →
        (∀ e' ∈ post, e'.request = .commit → ¬AnsweredOk e'.response) →
        ConfigStore.load fs {} = some { e.cfg with crc32 := ConfigStore.crcOf e.cfg }) := by
  refine ⟨Session.exists_session hfw h₀, ?_, ?_⟩
  · intro log cfg s h
    exact ⟨h.cfg_eq.2.2, fun bytes hq => h.getConfig_reports h₀ hq⟩
  · intro log cfg fs h pre e post hlog he hok hlast
    exact h.load_eq hversion hlog he hok hlast

/-- SF9 is set and committed. -/
theorem sessions_faithful_sf : ∃ log cfg fs,
    Session (ascii "dev") none workingSave {} ⟨true, fun _ => none⟩ log cfg fs ∧
      log.map Exchange.request = [.setConfig [some (.int .sf 9)], .commit] := by
  obtain ⟨setBytes, hset⟩ : ∃ bytes, (Request.setConfig [some (.int .sf 9)]).Form bytes :=
    ⟨_, .setConfig [] (.fix (by decide)) (.fixstr (by decide)) (.fixstr (by decide))
      (.cons (.int (.fixstr (by decide)) ⟨by decide, by decide⟩ (.posFix (n := 9) (by decide)))
        .nil)⟩
  obtain ⟨commitBytes, hcommit⟩ : ∃ bytes, Request.commit.Form bytes :=
    ⟨_, .simple (n := 0) [] (by simp) (.fix (by decide)) (.fixstr (by decide))
      (.fixstr (by decide))⟩
  have hqs : ∀ q ∈ [(Request.setConfig [some (.int .sf 9)], setBytes),
      (Request.commit, commitBytes)], q.1.Form q.2 := by
    intro q hq
    rcases List.mem_pair.mp hq with rfl | rfl
    · exact hset
    · exact hcommit
  obtain ⟨log, cfg, fs, hsession, hlog⟩ := (sessions_faithful (ascii "dev") none workingSave
    ⟨true, fun _ => none⟩ ⟨true, fun _ => none⟩ {} (by decide) rfl
    (show (0 : UInt8) ∈ _ by decide)).1 _ hqs
  refine ⟨log, cfg, fs, hsession, ?_⟩
  have hrequests := congrArg (List.map Prod.fst) hlog
  rwa [List.map_map] at hrequests

end Reticulum
