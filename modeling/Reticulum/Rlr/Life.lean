import Reticulum.Lib.Run
import Reticulum.Rlr.Firmware
import Reticulum.Rlr.Framing
import Reticulum.Rlr.Sessions
import Reticulum.Rlr.SerialFrames
import Reticulum.Rns.Transport.Returns
import Reticulum.Rns.Vectors

/-!
# The life of a device

A device is switched on, loops and is written to over Bluetooth, and may be switched off at any
moment between two of these; what is in flash stays. No step of such a life faults, and the identity
lives as long as the file it is in is read in full at every start.
-/

namespace Reticulum

/-! ### What requests do -/

namespace ConfigProtocol

/-- What a request can do to the configuration and to the caller's state. -/
inductive Alters {σ : Type} (save : SaveFn σ) (cfg : Config) (s : σ) : Config → σ → Prop
  | set (ss : List Setting) : Alters save cfg s (applyAll cfg ss) s
  | saved {f : Config → σ → Bool × σ} (h : save = some f) : Alters save cfg s cfg (f cfg s).2

variable {σ : Type} (fw : FwVersion) (request : Bytes) (cfg : Config)
  (transport : Option Transport) (save : SaveFn σ) (s : σ)

theorem alters_handleCommit : Alters save cfg s cfg (handleCommit cfg save s).2 := by
  cases save with
  | none => exact .set []
  | some f =>
    have hstate : (handleCommit cfg (some f) s).2 = (f cfg s).2 := by
      dsimp only [handleCommit]
      generalize f cfg s = r
      obtain ⟨ok, s'⟩ := r
      cases ok <;> rfl
    rw [hstate]
    exact .saved rfl

theorem handleRequest_alters : Alters save cfg s (handleRequest fw request cfg transport save s).2.1
    (handleRequest fw request cfg transport save s).2.2 := by
  by_cases hcommit : ∃ n r, Commands request (ascii "commit") n r
  · obtain ⟨n, r, h⟩ := hcommit
    rw [handleRequest_commit cfg transport save s h]
    exact alters_handleCommit cfg save s
  by_cases hset : ∃ n r, Commands request (ascii "set_config") n r
  · obtain ⟨n, r, h⟩ := hset
    rw [handleRequest_setConfig cfg transport save s h]
    rcases applySetFields_cases n r cfg 0 with ⟨ss, r', -, happly⟩ | ⟨m, ss, r', -, -, -, happly⟩
    · rw [(handleSetConfig_applied happly).1]
      exact .set ss
    · rw [handleSetConfig_malformed happly]
      exact .set ss
  by_cases hping : ∃ n r, Commands request (ascii "ping") n r
  · obtain ⟨n, r, h⟩ := hping
    rw [handleRequest_ping cfg transport save s h]
    exact .set []
  by_cases hget : ∃ n r, Commands request (ascii "get_config") n r
  · obtain ⟨n, r, h⟩ := hget
    rw [handleRequest_getConfig cfg transport save s h]
    exact .set []
  obtain ⟨msg, -, hrun⟩ := handleRequest_other cfg transport save s
    (no_command hping hget hcommit hset)
  rw [hrun]
  exact .set []

/-- What settings and saves keep, requests keep. -/
def KeptBy (save : SaveFn σ) (I : Config → σ → Prop) : Prop :=
  ∀ cfg s cfg' s', Alters save cfg s cfg' s' → I cfg s → I cfg' s'

end ConfigProtocol

namespace SerialConsole
open ConfigProtocol
variable {σ : Type} {fw : FwVersion} {transport : Option Transport} {save : SaveFn σ}
  {I : Config → σ → Prop}

theorem serve_keeps (hI : KeptBy save I) {io io' : Io σ} {req : Bytes}
    (h : serve fw transport save io req = .ok io') (hio : I io.cfg io.caller) :
    I io'.cfg io'.caller := by
  obtain ⟨resp, -, rfl⟩ := map_eq_ok h
  have hkept := hI _ _ _ _ (handleRequest_alters fw req io.cfg transport save io.caller) hio
  unfold sendResponse
  split <;> exact hkept

theorem tickByte_keeps (hI : KeptBy save I) {p p' : Console × Io σ} {b : UInt8}
    (h : tickByte fw transport save p b = .ok p') (hp : I p.2.cfg p.2.caller) :
    I p'.2.cfg p'.2.caller := by
  obtain ⟨c, io⟩ := p
  unfold tickByte at h
  dsimp only at h
  split at h
  · cases h
    exact hp
  · split at h <;> cases h <;> exact hp
  · obtain ⟨c', -, h⟩ := bind_eq_ok h
    split at h
    · obtain ⟨req, -, h⟩ := bind_eq_ok h
      obtain ⟨io', hserve, h⟩ := bind_eq_ok h
      cases h
      exact serve_keeps hI hserve hp
    · cases h
      exact hp

theorem foldlM_tickByte_keeps (hI : KeptBy save I) {bytes : Bytes} {p p' : Console × Io σ}
    (h : bytes.foldlM (tickByte fw transport save) p = .ok p') (hp : I p.2.cfg p.2.caller) :
    I p'.2.cfg p'.2.caller := by
  induction bytes generalizing p with
  | nil =>
    cases h
    exact hp
  | cons b bytes ih =>
    rw [List.foldlM_cons] at h
    obtain ⟨p₁, hbyte, h⟩ := bind_eq_ok h
    exact ih h (tickByte_keeps hI hbyte hp)

theorem tick_keeps (hI : KeptBy save I) {c c' : Console} {call : TickCall σ} {io' : Io σ}
    (hsave : call.save = save) (h : tick fw c call = .ok (c', io'))
    (hcall : I call.cfg call.caller) : I io'.cfg io'.caller := by
  subst hsave
  exact foldlM_tickByte_keeps hI h hcall

end SerialConsole

/-! ### What is in flash -/

namespace Storage

theorem saveFile_files {fs : Fs} {path p : String} (h : p ≠ path) (data : Bytes)
    (calls : WriteCalls) : (saveFile fs path data calls).2.files p = fs.files p := by
  have hset : ∀ (fs : Fs) file, (set fs path file).files p = fs.files p := by
    intro fs file
    exact if_neg h
  unfold saveFile
  split
  · rfl
  have hcleared : (if internalExists fs path calls.existsOk && calls.removeOk then
      set fs path none else fs).files p = fs.files p := by
    split
    · exact hset fs none
    · rfl
  dsimp only
  split
  · exact hcleared
  · exact (hset _ _).trans hcleared

theorem saveFile_mounted (fs : Fs) (path : String) (data : Bytes) (calls : WriteCalls) :
    (saveFile fs path data calls).2.mounted = fs.mounted := by
  unfold saveFile
  split
  · rfl
  have hcleared : (if internalExists fs path calls.existsOk && calls.removeOk then
      set fs path none else fs).mounted = fs.mounted := by
    split <;> rfl
  dsimp only
  split
  · exact hcleared
  · exact hcleared

theorem upTo_isInitial (stopsAt : Option Nat) (b : Bytes) : upTo stopsAt b <+: b := by
  cases stopsAt with
  | none => exact List.prefix_refl b
  | some n => exact List.take_prefix n b

theorem prefix_of_loadFile {fs : Fs} {path : String} {n : Nat} {calls : ReadCalls} {b : Bytes}
    (h : loadFile fs path n calls = some b) : ∃ file, fs.files path = some file ∧ b <+: file := by
  unfold loadFile at h
  split_ifs at h with hfound
  cases hf : fs.files path with
  | none => simp [internalExists, hf] at hfound
  | some file =>
    rw [hf, Option.getD_some] at h
    refine ⟨file, rfl, ?_⟩
    rw [← Option.some.inj h]
    exact (upTo_isInitial _ _).trans (List.take_prefix _ _)

end Storage

/-- An old file is found and goes. -/
def WriteCalls.Clears (calls : WriteCalls) : Prop := calls.existsOk = true ∧ calls.removeOk = true

/-- No call fails or stops short. -/
structure WriteCalls.Works (calls : WriteCalls) : Prop where
  clears : calls.Clears
  openOk : calls.openOk = true
  stopsAt : calls.stopsAt = none

/-- A read of `n` bytes gets as many, if the file has them. -/
structure ReadCalls.Full (calls : ReadCalls) (n : Nat) : Prop where
  existsOk : calls.existsOk = true
  openOk : calls.openOk = true
  readOk : calls.readOk = true
  stopsAt : ∀ k, calls.stopsAt = some k → n ≤ k

theorem ReadCalls.Full.upTo_eq {calls : ReadCalls} {n : Nat} (h : calls.Full n) {b : Bytes}
    (hb : b.length = n) : Storage.upTo calls.stopsAt b = b := by
  unfold Storage.upTo
  split
  · rfl
  · exact List.take_of_length_le (hb ▸ h.stopsAt _ ‹_›)

/-- Whether or not there was a file, none is left when the new one is opened. -/
theorem WriteCalls.Clears.cleared {calls : WriteCalls} (h : calls.Clears) (fs : Fs)
    (path : String) : (if Storage.internalExists fs path calls.existsOk && calls.removeOk then
      Storage.set fs path none else fs).files path = none := by
  cases hf : fs.files path with
  | none =>
    rw [if_neg (by simp [Storage.internalExists, hf])]
    exact hf
  | some b => rw [if_pos (by simp [Storage.internalExists, hf, h.1, h.2]), Storage.set_files]

theorem Storage.saveFile_works {fs : Fs} (hm : fs.mounted = true) {calls : WriteCalls}
    (h : calls.Works) (path : String) (data : Bytes) :
    (saveFile fs path data calls).2.files path = some data := by
  have hcleared := h.clears.cleared fs path
  unfold saveFile
  rw [hm, h.openOk]
  simp only [Bool.not_true, Bool.false_eq_true, if_false, set_files, hcleared, h.stopsAt, upTo,
    Option.getD_none, List.nil_append]

namespace ConfigStore
open Storage ConfigProtocol

theorem save_files {fs : Fs} {p : String} (h : p ≠ path) (calls : SaveCalls) (cfg : Config) :
    (save fs calls cfg).2.files p = fs.files p := by
  dsimp only [save]
  split
  · rfl
  · exact saveFile_files h _ _

theorem save_mounted (fs : Fs) (calls : SaveCalls) (cfg : Config) :
    (save fs calls cfg).2.mounted = fs.mounted := by
  dsimp only [save]
  split
  · rfl
  · exact saveFile_mounted _ _ _ _

/-- The configuration file, if there is one, begins like a record of a configuration that the
firmware may have had, and ends there or before. -/
def Stored (fs : Fs) : Prop :=
  ∀ b, fs.files path = some b → ∃ cfg, Terminated cfg ∧ b <+: (stamped cfg).bytes

theorem Stored.congr {fs fs' : Fs} (h : Stored fs) (hfs : fs'.files path = fs.files path) :
    Stored fs' := by
  intro b hb
  exact h b (hfs ▸ hb)

theorem Stored.save {fs : Fs} (h : Stored fs) {calls : SaveCalls} (hcalls : calls.write.Clears)
    {cfg : Config} (hcfg : Terminated cfg) : Stored (save fs calls cfg).2 := by
  by_cases hu : UpToDate fs calls cfg
  · rw [save_of_upToDate hu]
    exact h
  rw [save_of_not_upToDate hu]
  have hnone := hcalls.cleared fs path
  unfold saveFile
  split
  · exact h
  dsimp only
  split
  · intro b hb
    cases hnone.symm.trans hb
  · intro b hb
    rw [set_files, hnone, Option.getD_none, List.nil_append] at hb
    cases hb
    exact ⟨cfg, hcfg, upTo_isInitial _ _⟩

/-- What is loaded was terminated when it was saved. -/
theorem Stored.terminated {fs : Fs} (h : Stored fs) {calls : LoadCalls} {cfg : Config}
    (hload : load fs calls = some cfg) : Terminated cfg := by
  unfold load at hload
  split at hload
  · cases hload
  obtain ⟨read, hread, haccept⟩ := Option.bind_eq_some_iff.mp hload
  obtain ⟨file, hfile, hread⟩ := prefix_of_loadFile hread
  obtain ⟨c, hc, hfile⟩ := h file hfile
  have hbytes := (accept_eq_some.mp haccept).1
  have hlen : read.length = (stamped c).bytes.length := by
    rw [hbytes, Config.length_bytes, Config.length_bytes]
  have heq : cfg = stamped c :=
    Config.bytes_injective (hbytes ▸ (hread.trans hfile).eq_of_length hlen)
  rw [heq]
  exact hc

end ConfigStore

/-! ### Lives -/

namespace Firmware
open ConfigProtocol

inductive Act where
  | powerOn (i : SetupInput)
  | loop (i : LoopInput)
  | requestWrite (request : Bytes) (saves : List SaveCalls)

variable [CryptoLib]

def act (fw : FwVersion) (d : Device) : Act → Except Fault Device
  | .powerOn i => lift (setup d.fs i)
  | .loop i => (loop fw d i).map Prod.snd
  | .requestWrite request saves => (onRequestWrite fw d request saves).map Prod.snd

def Lives (fw : FwVersion) (d : Device) (a : Act) (d' : Device) : Prop := act fw d a = .ok d'

/-- Every save finds the file it replaces and removes it, whatever else fails. -/
def SetupInput.Clears (i : SetupInput) : Prop := i.nameSave.write.Clears

def Act.Clears : Act → Prop
  | .powerOn i => i.Clears
  | .loop i => ∀ calls ∈ i.saves, calls.write.Clears
  | .requestWrite _ saves => ∀ calls ∈ saves, calls.write.Clears

/-- Nothing that the device works on leads it out of bounds or into an exception. -/
structure Sound (d : Device) : Prop where
  terminated : Terminated d.cfg
  stored : ConfigStore.Stored d.fs
  equipped : d.node.Equipped
  console : d.console.InBounds

omit [CryptoLib] in
theorem clears_headD {saves : List SaveCalls} (h : ∀ calls ∈ saves, calls.write.Clears) :
    (saves.headD {}).write.Clears := by
  cases saves with
  | nil => exact ⟨rfl, rfl⟩
  | cons calls saves => exact h calls (List.mem_cons_self ..)

/-- What the saves of a running device keep. -/
def Keeps (cfg : Config) (s : Fs × List SaveCalls) : Prop :=
  Terminated cfg ∧ ConfigStore.Stored s.1 ∧ ∀ calls ∈ s.2, calls.write.Clears

omit [CryptoLib] in
theorem keptBy_saveConfig : KeptBy saveConfig Keeps := by
  rintro cfg ⟨fs, saves⟩ cfg' s' halters ⟨hcfg, hstored, hsaves⟩
  cases halters with
  | set ss => exact ⟨hcfg.applyAll ss, hstored, hsaves⟩
  | saved h =>
    cases h
    refine ⟨hcfg, hstored.save (clears_headD hsaves) hcfg, ?_⟩
    intro calls hcalls
    exact hsaves calls (List.mem_of_mem_tail hcalls)

/-! ### Nothing faults -/

omit [CryptoLib] in
theorem beaconPayload_returns {cfg : Config} (h : Terminated cfg) (batteryMv : UInt16)
    (t : Transport) : ∃ payload, beaconPayload cfg batteryMv t = .ok payload := by
  have hname : cString cfg.displayName = .ok (cfg.displayName.1.takeWhile (· ≠ 0)) :=
    if_pos (List.contains_iff_mem.mpr h)
  obtain ⟨s, hs, hlen⟩ : ∃ s, makeTelemetrySnapshot cfg batteryMv t = .ok s ∧
      s.name.length < 256 := by
    unfold makeTelemetrySnapshot
    rw [hname]
    refine ⟨_, rfl, ?_⟩
    dsimp only
    split <;> exact length_takeWhile_lt cfg
  obtain ⟨payload, hpayload⟩ := (Telemetry.encode_ok_iff s).mpr hlen
  refine ⟨payload, ?_⟩
  unfold beaconPayload
  rw [hs]
  exact lift_of_ok hpayload

omit [CryptoLib] in
theorem payloadAt_returns {d : Device} (h : Sound d) (batteryMv : UInt16) (now : Nat) :
    ∃ payload, payloadAt d batteryMv now = .ok payload := by
  unfold payloadAt
  split
  · exact beaconPayload_returns h.terminated _ _
  · exact ⟨[], rfl⟩

theorem tickNode_returns {d : Device} (h : Sound d) (batteryMv : UInt16) (now : Nat) :
    ∃ t, tickNode d batteryMv now = .ok t ∧ t.Equipped := by
  obtain ⟨payload, hpayload⟩ := payloadAt_returns h batteryMv now
  have hequipped : (d.node.withFn fun _ => payload).Equipped := h.equipped.congr rfl rfl
  obtain ⟨t, ht⟩ := Transport.step_returns hequipped (.tick now)
  refine ⟨t, ?_, hequipped.step (a := .tick now) trivial ht⟩
  unfold tickNode
  rw [hpayload]
  exact lift_of_ok ht

theorem receive_returns {t : Transport} (h : t.Equipped) (s : Radio.Reassembly)
    (rx : Option Radio.Call) (now : Nat) :
    ∃ wires s' t', receive s t rx now = .ok (wires, s', t') ∧ t'.Equipped := by
  cases rx with
  | none => exact ⟨[], s, t, rfl, h⟩
  | some call =>
    obtain ⟨⟨n, buf⟩, s', hread⟩ := Radio.readPending_inBounds s 512 call
    simp only [receive, hread, bind, Except.bind]
    split
    · obtain ⟨t', ht'⟩ := Transport.step_returns h (.inbound loraIface buf now)
      rw [lift_of_ok ht']
      exact ⟨_, s', t', rfl, h.step (a := .inbound loraIface buf now) trivial ht'⟩
    · exact ⟨_, s', t, rfl, h⟩

omit [CryptoLib] in
theorem transmitAll_returns (online : Bool) (chip : Nat → ChipCalls) (n : Nat)
    (wires : List Bytes) : ∃ frames, transmitAll online chip n wires = .ok frames := by
  induction wires generalizing n with
  | nil => exact ⟨[], rfl⟩
  | cons wire wires ih =>
    obtain ⟨⟨result, frames⟩, hsent⟩ := Radio.transmit_inBounds online (chip n).random
      (chip n).state₁ (chip n).state₂ wire
    obtain ⟨more, hmore⟩ := ih (n + 1)
    refine ⟨frames ++ more, ?_⟩
    simp only [transmitAll, hsent, hmore, bind, Except.bind]
    rfl

theorem loop_returns {fw : FwVersion} (hfw : fw.length < 256) {d : Device} (h : Sound d)
    {i : LoopInput} (hi : ∀ calls ∈ i.saves, calls.write.Clears) :
    ∃ out d', loop fw d i = .ok (out, d') ∧ Sound d' := by
  obtain ⟨t, htick, ht⟩ := tickNode_returns h i.batteryMv (Radio.millis i.time).toNat
  obtain ⟨wires, s', t', hreceive, ht'⟩ :=
    receive_returns ht d.reassembly i.rx (Radio.millis i.time).toNat
  obtain ⟨frames, hframes⟩ :=
    transmitAll_returns d.radioOnline i.chip 0 (t.transmissions.map Prod.snd ++ wires)
  have hcfg : Terminated (⟨d.cfg, (d.fs, i.saves), [], []⟩ :
      SerialConsole.Io (Fs × List SaveCalls)).cfg := h.terminated
  obtain ⟨io, hserial, -⟩ :=
    SerialConsole.tick_spec (some t') saveConfig hfw h.console hcfg i.serial
  have hkeeps : Keeps io.cfg io.caller :=
    SerialConsole.foldlM_tickByte_keeps keptBy_saveConfig hserial ⟨h.terminated, h.stored, hi⟩
  have hconsole := Mealy.run_inv (I := SerialConsole.Console.InBounds)
    (fun c b hc => SerialConsole.absorb_inBounds hc b) h.console i.serial
  generalize (Mealy.run SerialConsole.absorb d.console i.serial).1 = console at hserial hconsole
  refine ⟨⟨frames, io.written⟩, { d with
    cfg := io.cfg
    fs := io.caller.1
    reassembly := s'
    node := t'
    console := console }, ?_, ⟨hkeeps.1, hkeeps.2.1, ht', hconsole⟩⟩
  simp only [loop, htick, hreceive, hframes, SerialConsole.tick, hserial, bind, Except.bind]
  rfl

omit [CryptoLib] in
theorem onRequestWrite_returns {fw : FwVersion} (hfw : fw.length < 256) {d : Device} (h : Sound d)
    (request : Bytes) {saves : List SaveCalls} (hs : ∀ calls ∈ saves, calls.write.Clears) :
    ∃ out d', onRequestWrite fw d request saves = .ok (out, d') ∧ Sound d' := by
  obtain ⟨response, cfg', s', b, ps, hrun, -, -⟩ :
      Serves fw request d.cfg (some d.node) saveConfig (d.fs, saves) :=
    serves _ _ _ hfw h.terminated
  have hkeeps : Keeps cfg' s' := by
    have halters := handleRequest_alters fw request d.cfg (some d.node) saveConfig (d.fs, saves)
    rw [hrun] at halters
    exact keptBy_saveConfig _ _ _ _ halters ⟨h.terminated, h.stored, hs⟩
  refine ⟨response, { d with cfg := cfg', fs := s'.1 }, ?_,
    ⟨hkeeps.1, hkeeps.2.1, h.equipped, h.console⟩⟩
  simp only [onRequestWrite, hrun]
  rfl

/-- Every private key has a public key. -/
def DerivesKeys : Prop :=
  ∀ priv : Bytes, (CryptoLib.eval (x25519Clamp priv) x25519Basepoint).isSome = true

theorem fromPrivateBytes_returns (heval : DerivesKeys) {priv : Bytes} (h : priv.length = 64) :
    ∃ identity, Identity.fromPrivateBytes priv = .ok identity := by
  have hx : ∃ xPub, x25519PublicFromPrivate (priv.slice 0 32) = .ok xPub := by
    obtain ⟨pub, hpub⟩ := Option.isSome_iff_exists.mp (heval (priv.slice 0 32))
    refine ⟨pub.toList, ?_⟩
    rw [x25519PublicFromPrivate, if_neg (by simp [Bytes.slice, h]), hpub]
  have he : ∃ ePub, ed25519PublicFromPrivate (priv.slice 32 32) = .ok ePub :=
    ⟨_, if_neg (by simp [Bytes.slice, h])⟩
  obtain ⟨xPub, hx⟩ := hx
  obtain ⟨ePub, he⟩ := he
  cases hid : Identity.fromPrivateBytes priv with
  | ok identity => exact ⟨identity, rfl⟩
  | error e =>
    unfold Identity.fromPrivateBytes at hid
    split at hid
    · rename_i hlen
      exact absurd h hlen
    split at hid
    · rename_i hx'
      cases hx.symm.trans hx'
    split at hid
    · rename_i he'
      cases he.symm.trans he'
    · cases hid

omit [CryptoLib] in
theorem loadOrGenerate_length (fs : Fs) (i : SetupInput) :
    (loadOrGenerate fs i).1.length = 64 := by
  unfold loadOrGenerate
  split
  · split
    · assumption
    · exact i.fresh.2
  · exact i.fresh.2

omit [CryptoLib] in
/-- Only the identity file may change. -/
theorem loadOrGenerate_files (fs : Fs) (i : SetupInput) {p : String} (hp : p ≠ identityFile) :
    (loadOrGenerate fs i).2.files p = fs.files p := by
  unfold loadOrGenerate
  split
  · split
    · rfl
    · exact Storage.saveFile_files hp _ _
  · exact Storage.saveFile_files hp _ _

omit [CryptoLib] in
theorem assignName_sound (identity : Identity) {cfg : Config} {fs : Fs} {calls : SaveCalls}
    (hcalls : calls.write.Clears) (hcfg : Terminated cfg) (hfs : ConfigStore.Stored fs) :
    Terminated (assignName identity cfg fs calls).1 ∧
      ConfigStore.Stored (assignName identity cfg fs calls).2 := by
  unfold assignName
  split
  · have hnamed : Terminated { cfg with
        displayName := setName cfg.displayName (defaultName identity) } :=
      terminated_setName cfg.displayName _
    exact ⟨hnamed, hfs.save hcalls hnamed⟩
  · exact ⟨hcfg, hfs⟩

theorem bringUp_permitted {identity : Identity} (hpriv : identity.privateKey.length = 64)
    {telDest : Destination} (hdest : Destination.new identity telemetryDestName = .ok telDest)
    (i : SetupInput) : ∀ a ∈ bringUp telDest i, a.Permitted := by
  intro a ha
  have hid : telDest.identity = identity := by
    obtain ⟨destHash, -, h⟩ := bind_eq_ok hdest
    cases h
    rfl
  simp only [bringUp, List.mem_cons, List.not_mem_nil, or_false] at ha
  rcases ha with rfl | rfl | rfl | rfl | rfl
  · trivial
  · rintro f hf n
    cases hf
    simp [announceSeedFn]
  · exact ⟨⟨identity, telemetryDestName, hdest⟩, hid ▸ hpriv⟩
  · trivial
  · trivial

theorem setup_returns (heval : DerivesKeys) {flash : Fs} (hflash : ConfigStore.Stored flash)
    {i : SetupInput} (hi : i.Clears) : ∃ d, setup flash i = .ok d ∧ Sound d := by
  generalize hfs : ({ flash with mounted := i.mounts } : Fs) = fs
  have hstored : ConfigStore.Stored fs := hflash.congr (by rw [← hfs])
  have hcfg : Terminated ((ConfigStore.load fs i.configLoad).getD {}) := by
    cases hload : ConfigStore.load fs i.configLoad with
    | none => exact List.mem_replicate.mpr ⟨by decide, rfl⟩
    | some cfg => exact hstored.terminated hload
  have hstored' : ConfigStore.Stored (loadOrGenerate fs i).2 :=
    hstored.congr (loadOrGenerate_files fs i (by decide))
  obtain ⟨identity, hid⟩ := fromPrivateBytes_returns heval (loadOrGenerate_length fs i)
  obtain ⟨hname, hsaved⟩ := assignName_sound identity hi hcfg hstored'
  obtain ⟨telDest, hdest⟩ :
      ∃ telDest, Destination.new identity telemetryDestName = .ok telDest := by
    have hlen : ¬identity.identityHash.length ≠ identityHashLen :=
      not_not.mpr identity.identityHash_length
    unfold Destination.new Identity.destinationHashFor
    rw [if_neg hlen]
    exact ⟨_, rfl⟩
  have hpriv := Identity.privateKey_of_fromPrivateBytes hid
  obtain ⟨t, ht, hequipped⟩ := Transport.steps_return
    (Transport.equipped_new identity true fun _ => ifaceCfg) (bringUp_permitted hpriv hdest i)
  have hnode : (bringUp telDest i).foldlM Transport.step
      (Transport.new identity true fun _ => ifaceCfg) = .ok t := ht
  generalize hnamed : assignName identity _ _ _ = named at hname hsaved
  refine ⟨⟨named.1, named.2, i.radioOnline, noReassembly, t, newConsole⟩, ?_,
    ⟨hname, hsaved, hequipped, ?_⟩⟩
  · simp only [setup, hfs, hid, hnamed, hdest, hnode, bind, Except.bind]
    rfl
  · exact SerialConsole.Console.IsReset.inBounds rfl

theorem act_returns {fw : FwVersion} (hfw : fw.length < 256) (heval : DerivesKeys) {d : Device}
    (h : Sound d) {a : Act} (ha : a.Clears) : ∃ d', act fw d a = .ok d' ∧ Sound d' := by
  cases a with
  | powerOn i =>
    obtain ⟨d', hd', hsound⟩ := setup_returns heval h.stored ha
    exact ⟨d', lift_of_ok hd', hsound⟩
  | loop i =>
    obtain ⟨out, d', hd', hsound⟩ := loop_returns hfw h ha
    refine ⟨d', ?_, hsound⟩
    rw [act, hd']
    rfl
  | requestWrite request saves =>
    obtain ⟨out, d', hd', hsound⟩ := onRequestWrite_returns hfw h request ha
    refine ⟨d', ?_, hsound⟩
    rw [act, hd']
    rfl

theorem acts_return {fw : FwVersion} (hfw : fw.length < 256) (heval : DerivesKeys) {d : Device}
    (h : Sound d) {acts : List Act} (hacts : ∀ a ∈ acts, a.Clears) :
    ∃ d', acts.foldlM (act fw) d = .ok d' ∧ Sound d' := by
  induction acts generalizing d with
  | nil => exact ⟨d, rfl, h⟩
  | cons a acts ih =>
    obtain ⟨d₁, hd₁, h₁⟩ := act_returns hfw heval h (hacts a (List.mem_cons_self ..))
    obtain ⟨d', hd', h'⟩ := ih h₁ fun b hb => hacts b (List.mem_cons_of_mem a hb)
    refine ⟨d', ?_, h'⟩
    rw [List.foldlM_cons, hd₁]
    exact hd'

/-- Whatever the radio hears, whatever is written to the serial line and over Bluetooth, and
whichever reads and writes of files fail or stop short, no call throws and none leaves its arrays,
over any number of starts. Only the old configuration must be found and removed by every save: what
is left of it could make one record with the new one. -/
theorem life_never_faults {fw : FwVersion} (hfw : fw.length < 256) (heval : DerivesKeys)
    {flash : Fs} (hflash : ConfigStore.Stored flash) {first : SetupInput} (hfirst : first.Clears)
    {acts : List Act} (hacts : ∀ a ∈ acts, a.Clears) :
    ∃ d₀ d, setup flash first = .ok d₀ ∧ acts.foldlM (act fw) d₀ = .ok d := by
  obtain ⟨d₀, hd₀, h₀⟩ := setup_returns heval hflash hfirst
  obtain ⟨d, hd, -⟩ := acts_return hfw heval h₀ hacts
  exact ⟨d₀, d, hd₀, hd⟩

/-! ### What the steps do -/

/-- What a `setup` has done, when it returns. -/
structure SetUp (flash : Fs) (i : SetupInput) (d : Device) (telDest : Destination) : Prop where
  identity : Identity.fromPrivateBytes (loadOrGenerate { flash with mounted := i.mounts } i).1 =
    .ok d.node.localIdentity
  destination : Destination.new d.node.localIdentity telemetryDestName = .ok telDest
  named : (d.cfg, d.fs) = assignName d.node.localIdentity
    ((ConfigStore.load { flash with mounted := i.mounts } i.configLoad).getD {})
    (loadOrGenerate { flash with mounted := i.mounts } i).2 i.nameSave
  node : (Transport.new d.node.localIdentity true fun _ => ifaceCfg).steps (bringUp telDest i) =
    .ok d.node
  radioOnline : d.radioOnline = i.radioOnline
  reassembly : d.reassembly = noReassembly
  console : d.console = newConsole

theorem setUp_of_setup {flash : Fs} {i : SetupInput} {d : Device} (h : setup flash i = .ok d) :
    ∃ telDest, SetUp flash i d telDest := by
  obtain ⟨identity, hid, h⟩ := bind_eq_ok h
  obtain ⟨telDest, hdest, h⟩ := bind_eq_ok h
  obtain ⟨node, hnode, h⟩ := bind_eq_ok h
  cases h
  have hlocal : node.localIdentity = identity := Transport.steps_localIdentity hnode
  subst hlocal
  exact ⟨telDest, hid, hdest, rfl, hnode, rfl, rfl, rfl⟩

/-- What a `loop` has done, when it returns. -/
structure Looped (fw : FwVersion) (d : Device) (i : LoopInput) (out : LoopOutput) (d' : Device)
    (ticked : Transport) (replies : List Bytes) : Prop where
  tick : tickNode d i.batteryMv (Radio.millis i.time).toNat = .ok ticked
  receive : receive d.reassembly ticked i.rx (Radio.millis i.time).toNat =
    .ok (replies, d'.reassembly, d'.node)
  frames : transmitAll d.radioOnline i.chip 0 (ticked.transmissions.map Prod.snd ++ replies) =
    .ok out.frames
  serial : ∃ io, SerialConsole.tick fw d.console
      ⟨d.cfg, some d'.node, saveConfig, (d.fs, i.saves), i.serial⟩ = .ok (d'.console, io) ∧
    d'.cfg = io.cfg ∧ d'.fs = io.caller.1 ∧ out.written = io.written
  radioOnline : d'.radioOnline = d.radioOnline

theorem looped_of_loop {fw : FwVersion} {d d' : Device} {i : LoopInput} {out : LoopOutput}
    (h : loop fw d i = .ok (out, d')) : ∃ ticked replies, Looped fw d i out d' ticked replies := by
  obtain ⟨ticked, htick, h⟩ := bind_eq_ok h
  obtain ⟨⟨replies, reassembly, node⟩, hreceive, h⟩ := bind_eq_ok h
  obtain ⟨frames, hframes, h⟩ := bind_eq_ok h
  obtain ⟨⟨console, io⟩, hserial, h⟩ := bind_eq_ok h
  cases h
  exact ⟨ticked, replies, htick, hreceive, hframes, ⟨io, hserial, rfl, rfl, rfl⟩, rfl⟩

omit [CryptoLib] in
theorem ok_of_lift {α : Type} {x : Except Exn α} {a : α} (h : lift x = .ok a) : x = .ok a := by
  cases x with
  | error e => cases h
  | ok b =>
    cases h
    rfl

/-- The packet that `read_pending` returns, if any. -/
def heard (s : Radio.Reassembly) (rx : Option Radio.Call) : Option Bytes :=
  rx.bind fun call =>
    match Radio.readPending s 512 call with
    | .ok ((n, buf), _) => if 0 < n then some buf else none
    | .error _ => none

/-- What the node does in a `loop`: a tick, and then a packet or none. -/
structure Moved (d : Device) (i : LoopInput) (d' : Device) (ticked : Transport)
    (replies : List Bytes) (payload : Bytes) : Prop where
  callback : payloadAt d i.batteryMv (Radio.millis i.time).toNat = .ok payload
  tick : (d.node.withFn fun _ => payload).step (.tick (Radio.millis i.time).toNat) = .ok ticked
  inbound : heard d.reassembly i.rx = none ∧ d'.node = ticked ∧ replies = [] ∨
    ∃ wire, heard d.reassembly i.rx = some wire ∧
      ticked.step (.inbound loraIface wire (Radio.millis i.time).toNat) = .ok d'.node ∧
      replies = d'.node.transmissions.map Prod.snd

theorem Looped.moved {fw : FwVersion} {d d' : Device} {i : LoopInput} {out : LoopOutput}
    {ticked : Transport} {replies : List Bytes} (h : Looped fw d i out d' ticked replies) :
    ∃ payload, Moved d i d' ticked replies payload := by
  obtain ⟨payload, hpayload, htick⟩ := bind_eq_ok h.tick
  refine ⟨payload, hpayload, ok_of_lift htick, ?_⟩
  have hreceive := h.receive
  unfold Firmware.receive at hreceive
  cases hrx : i.rx with
  | none =>
    simp only [hrx, Except.ok.injEq, Prod.mk.injEq] at hreceive
    exact .inl ⟨rfl, hreceive.2.2.symm, hreceive.1.symm⟩
  | some call =>
    simp only [hrx] at hreceive
    obtain ⟨⟨⟨n, buf⟩, s'⟩, hread, hrest⟩ := bind_eq_ok hreceive
    dsimp only at hrest
    split at hrest
    · rename_i hn
      obtain ⟨t, hinbound, hrest⟩ := bind_eq_ok hrest
      simp only [pure, Except.pure, Except.ok.injEq, Prod.mk.injEq] at hrest
      obtain ⟨hreplies, -, rfl⟩ := hrest
      refine .inr ⟨buf, ?_, ok_of_lift hinbound, hreplies.symm⟩
      simp [heard, hread, hn]
    · rename_i hn
      simp only [pure, Except.pure, Except.ok.injEq, Prod.mk.injEq] at hrest
      refine .inl ⟨?_, hrest.2.2.symm, hrest.1.symm⟩
      simp [heard, hread, hn]

theorem Moved.localIdentity {d d' : Device} {i : LoopInput} {ticked : Transport}
    {replies : List Bytes} {payload : Bytes} (h : Moved d i d' ticked replies payload) :
    d'.node.localIdentity = d.node.localIdentity := by
  have htick := Transport.step_localIdentity h.tick
  rcases h.inbound with ⟨-, hnode, -⟩ | ⟨wire, -, hinbound, -⟩
  · rw [hnode, htick]
    rfl
  · rw [Transport.step_localIdentity hinbound, htick]
    rfl

/-- What the saves of a running device keep, all its steps but `powerOn` keep. -/
theorem kept_of_act {fw : FwVersion} {I : Config → Fs → Prop}
    (hI : KeptBy saveConfig fun cfg s => I cfg s.1) {d d' : Device} {a : Act}
    (ha : ∀ i, a ≠ .powerOn i) (h : act fw d a = .ok d') (hd : I d.cfg d.fs) : I d'.cfg d'.fs := by
  cases a with
  | powerOn i => exact absurd rfl (ha i)
  | loop i =>
    obtain ⟨⟨out, d₁⟩, hloop, h⟩ := map_eq_ok h
    cases h
    obtain ⟨ticked, replies, hlooped⟩ := looped_of_loop hloop
    obtain ⟨io, hserial, hcfg, hfs, -⟩ := hlooped.serial
    rw [hcfg, hfs]
    exact SerialConsole.tick_keeps hI rfl hserial hd
  | requestWrite request saves =>
    obtain ⟨⟨out, d₁⟩, hwrite, h⟩ := map_eq_ok h
    cases h
    obtain ⟨bytes, -, h⟩ := map_eq_ok hwrite
    cases h
    exact hI _ _ _ _ (handleRequest_alters fw request d.cfg (some d.node) saveConfig
      (d.fs, saves)) hd

/-! ### The identity -/

theorem identityFile_of_act {fw : FwVersion} {d d' : Device} {a : Act}
    (ha : ∀ i, a ≠ .powerOn i) (h : act fw d a = .ok d') :
    d'.fs.files identityFile = d.fs.files identityFile := by
  refine kept_of_act (I := fun _ fs => fs.files identityFile = d.fs.files identityFile) ?_ ha h rfl
  rintro cfg ⟨fs, saves⟩ cfg' s' halters hfile
  cases halters with
  | set ss => exact hfile
  | saved h =>
    cases h
    exact (ConfigStore.save_files (by decide) _ _).trans hfile

/-- The identity file begins with this private key. -/
def Provisioned (fs : Fs) (priv : Bytes) : Prop :=
  priv.length = 64 ∧ ∃ rest, fs.files identityFile = some (priv ++ rest)

/-- The file is found and read to the end of the private key. -/
def Act.ReadsIdentity : Act → Prop
  | .powerOn i => i.mounts = true ∧ i.identityRead.Full 64
  | _ => True

omit [CryptoLib] in
theorem loadOrGenerate_of_provisioned {fs : Fs} {priv : Bytes} (h : Provisioned fs priv)
    (hm : fs.mounted = true) {i : SetupInput} (hread : i.identityRead.Full 64) :
    loadOrGenerate fs i = (priv, fs) := by
  obtain ⟨hlen, rest, hfile⟩ := h
  have hload : Storage.loadFile fs identityFile 64 i.identityRead = some priv := by
    simp only [Storage.loadFile, Storage.internalExists, hm, hfile, hread.existsOk, hread.openOk,
      hread.readOk]
    simp [hread.upTo_eq hlen, hlen]
  unfold loadOrGenerate
  rw [hload]
  exact if_pos hlen

omit [CryptoLib] in
/-- What the identity is built from is in flash, unless a fresh one could not be written. -/
theorem provisioned_loadOrGenerate {fs : Fs} (hm : fs.mounted = true) {i : SetupInput}
    (hwrite : i.identityWrite.Works) :
    Provisioned (loadOrGenerate fs i).2 (loadOrGenerate fs i).1 := by
  have hfresh : Provisioned (Storage.saveFile fs identityFile i.fresh.1 i.identityWrite).2
      i.fresh.1 := by
    refine ⟨i.fresh.2, [], ?_⟩
    rw [List.append_nil]
    exact Storage.saveFile_works hm hwrite identityFile i.fresh.1
  unfold loadOrGenerate
  split
  · rename_i priv hload
    split
    · rename_i hlen
      obtain ⟨file, hfile, rest, hrest⟩ := Storage.prefix_of_loadFile hload
      exact ⟨hlen, rest, hrest ▸ hfile⟩
    · exact hfresh
  · exact hfresh

/-- The device is `identity`, and the file says so. -/
structure Has (d : Device) (identity : Identity) (file : Option Bytes) : Prop where
  node : d.node.localIdentity = identity
  file : d.fs.files identityFile = file
  provisioned : ∃ priv, Identity.fromPrivateBytes priv = .ok identity ∧ Provisioned d.fs priv

omit [CryptoLib] in
theorem assignName_file (identity : Identity) (cfg : Config) (fs : Fs) (calls : SaveCalls) :
    (assignName identity cfg fs calls).2.files identityFile = fs.files identityFile := by
  unfold assignName
  split
  · exact ConfigStore.save_files (by decide) _ _
  · rfl

omit [CryptoLib] in
theorem Provisioned.congr {fs fs' : Fs} {priv : Bytes} (h : Provisioned fs priv)
    (hfs : fs'.files identityFile = fs.files identityFile) : Provisioned fs' priv := by
  obtain ⟨hlen, rest, hfile⟩ := h
  exact ⟨hlen, rest, hfs.trans hfile⟩

theorem SetUp.file {flash : Fs} {i : SetupInput} {d : Device} {telDest : Destination}
    (h : SetUp flash i d telDest) : d.fs.files identityFile =
      (loadOrGenerate { flash with mounted := i.mounts } i).2.files identityFile := by
  have hfs := congrArg (fun p : Config × Fs => p.2.files identityFile) h.named
  exact hfs.trans (assignName_file _ _ _ _)

/-- With a file system that takes what it is given, the first start settles who the device is. -/
theorem has_of_setup {flash : Fs} {i : SetupInput} {d : Device} (h : setup flash i = .ok d)
    (hm : i.mounts = true) (hwrite : i.identityWrite.Works) :
    Has d d.node.localIdentity (d.fs.files identityFile) := by
  obtain ⟨telDest, hset⟩ := setUp_of_setup h
  have hprov : Provisioned (loadOrGenerate { flash with mounted := i.mounts } i).2
      (loadOrGenerate { flash with mounted := i.mounts } i).1 :=
    provisioned_loadOrGenerate hm hwrite
  exact ⟨rfl, rfl, _, hset.identity, hprov.congr hset.file⟩

theorem Has.act {fw : FwVersion} {d d' : Device} {identity : Identity} {file : Option Bytes}
    (h : Has d identity file) {a : Act} (ha : a.ReadsIdentity) (hact : act fw d a = .ok d') :
    Has d' identity file := by
  cases a with
  | powerOn i =>
    obtain ⟨telDest, hset⟩ := setUp_of_setup (ok_of_lift hact)
    obtain ⟨priv, hid, hprov⟩ := h.provisioned
    have hfile : Provisioned { d.fs with mounted := i.mounts } priv := hprov.congr rfl
    have hloaded : loadOrGenerate { d.fs with mounted := i.mounts } i =
        (priv, { d.fs with mounted := i.mounts }) := loadOrGenerate_of_provisioned hfile ha.1 ha.2
    have hidentity := hset.identity
    have hfile := hset.file
    rw [hloaded] at hidentity hfile
    have hnode : d'.node.localIdentity = identity := Except.ok.inj (hidentity.symm.trans hid)
    exact ⟨hnode, hfile.trans h.file, priv, hid, hprov.congr hfile⟩
  | loop i =>
    have hfile := identityFile_of_act (by simp) hact
    obtain ⟨⟨out, d₁⟩, hloop, hact⟩ := map_eq_ok hact
    cases hact
    obtain ⟨ticked, replies, hlooped⟩ := looped_of_loop hloop
    obtain ⟨payload, hmoved⟩ := hlooped.moved
    obtain ⟨priv, hid, hprov⟩ := h.provisioned
    exact ⟨hmoved.localIdentity.trans h.node, hfile.trans h.file, priv, hid, hprov.congr hfile⟩
  | requestWrite request saves =>
    have hfile := identityFile_of_act (by simp) hact
    obtain ⟨⟨out, d₁⟩, hwrite, hact⟩ := map_eq_ok hact
    cases hact
    obtain ⟨bytes, -, hd⟩ := map_eq_ok hwrite
    cases hd
    obtain ⟨priv, hid, hprov⟩ := h.provisioned
    exact ⟨h.node, hfile.trans h.file, priv, hid, hprov.congr hfile⟩

/-- The identity that the first start settles stays for as long as every start reads its file; no
save of a configuration touches it, however the calls of that save go. One start that does not read
it puts a new identity in its place for good. -/
theorem identity_lasts {fw : FwVersion} {flash : Fs} {first : SetupInput} {d₀ d : Device}
    {rs : List (Rec Device Act)} (hfirst : setup flash first = .ok d₀)
    (hm : first.mounts = true) (hwrite : first.identityWrite.Works)
    (hrun : Run (Lives fw) d₀ rs d) (hreads : ∀ r ∈ rs, r.act.ReadsIdentity) :
    d.node.localIdentity = d₀.node.localIdentity ∧
    d.fs.files identityFile = d₀.fs.files identityFile ∧
    ∀ (i : SetupInput) (d' : Device), i.mounts = true → i.identityWrite.Works →
      (∀ priv, Storage.loadFile { d.fs with mounted := true } identityFile 64 i.identityRead =
        some priv → priv.length ≠ 64) →
      setup d.fs i = .ok d' →
      Has d' d'.node.localIdentity (d'.fs.files identityFile) ∧
        Identity.fromPrivateBytes i.fresh.1 = .ok d'.node.localIdentity := by
  have hhas : Has d d₀.node.localIdentity (d₀.fs.files identityFile) :=
    hrun.inv_of (I := fun d => Has d d₀.node.localIdentity (d₀.fs.files identityFile))
      (has_of_setup hfirst hm hwrite) hreads fun _ _ _ hd hact ha => hd.act ha hact
  refine ⟨hhas.node, hhas.file, ?_⟩
  intro i d' him hiw hunread hsetup
  refine ⟨has_of_setup hsetup him hiw, ?_⟩
  obtain ⟨telDest, hset⟩ := setUp_of_setup hsetup
  have hfresh : (loadOrGenerate { d.fs with mounted := i.mounts } i).1 = i.fresh.1 := by
    rw [him]
    unfold loadOrGenerate
    split
    · rename_i priv hload
      rw [if_neg (hunread priv hload)]
    · rfl
  exact hfresh ▸ hset.identity

end Firmware

/-! ### Bob's device -/

namespace Firmware
open Vectors
attribute [local instance] lib

theorem derivesKeys_lib : DerivesKeys := fun _ => rfl

def empty : Fs := ⟨true, fun _ => none⟩

theorem stored_empty : ConfigStore.Stored empty := by
  intro b hb
  cases hb

/-- A start at which the chip would draw Bob's keys. -/
def bobStarts : SetupInput where
  fresh := ⟨bobPriv, by decide⟩
  seedBytes := fun _ => .replicate 5 0x5a
  seedClock := id

/-- A loop with one frame waiting and one byte on the serial line. -/
def busy (time : Nat) (frame : Bytes) : LoopInput where
  time
  batteryMv := 3948
  rx := some ⟨some ⟨frame, true⟩, time, time⟩
  chip := fun _ => ⟨0, Radio.errNone, Radio.errNone⟩
  serial := [0x00]
  saves := []

def fwTest : FwVersion := ascii "test"

/-- Among others a request cut short, a save that cannot open its file, and a start without
flash. -/
theorem life_never_faults_bob : ∃ d₀ d, setup empty bobStarts = .ok d₀ ∧
    [.loop (busy 10 (0x50 :: aliceAnnounce)),
      .requestWrite [0x81] [{ write := { openOk := false } }],
      .powerOn { bobStarts with mounts := false }, .loop (busy 5 [0x51, 0xff])].foldlM
        (act fwTest) d₀ = .ok d := by
  refine life_never_faults (by decide) derivesKeys_lib stored_empty ⟨rfl, rfl⟩ ?_
  intro a ha
  simp only [List.mem_cons, List.not_mem_nil, or_false] at ha
  rcases ha with rfl | rfl | rfl | rfl
  · intro calls hcalls
    cases hcalls
  · intro calls hcalls
    cases List.mem_singleton.mp hcalls
    exact ⟨rfl, rfl⟩
  · exact ⟨rfl, rfl⟩
  · intro calls hcalls
    cases hcalls

/-- Bob's device is switched off and on, and would draw other keys now. -/
theorem identity_lasts_bob : ∃ d₀ d, setup empty bobStarts = .ok d₀ ∧
    act fwTest d₀ (.powerOn { bobStarts with fresh := ⟨alicePriv, by decide⟩ }) = .ok d ∧
    d.node.localIdentity = d₀.node.localIdentity := by
  obtain ⟨d₀, hd₀, h₀⟩ := setup_returns derivesKeys_lib stored_empty (i := bobStarts) ⟨rfl, rfl⟩
  obtain ⟨d, hd, -⟩ := act_returns (show fwTest.length < 256 by decide) derivesKeys_lib h₀
    (a := .powerOn { bobStarts with fresh := ⟨alicePriv, by decide⟩ }) ⟨rfl, rfl⟩
  refine ⟨d₀, d, hd₀, hd, ?_⟩
  refine (identity_lasts hd₀ rfl ⟨⟨rfl, rfl⟩, rfl, rfl⟩ (.single hd) ?_).1
  intro r hr
  cases List.mem_singleton.mp hr
  exact ⟨rfl, rfl, rfl, rfl, fun k hk => by cases hk⟩

end Firmware
end Reticulum
