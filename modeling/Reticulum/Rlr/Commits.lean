import Reticulum.Lib.Register
import Reticulum.Rlr.Life

/-!
# Commits outlive the device

The configuration in force and the one in flash are a register: `set_config` writes it, `commit`
stores it, a start restarts it. Over whole lives, with requests from both sides and with file calls
that fail, a start finds what the last commit that was answered ok has stored, unless a later save
has failed.
-/

namespace Reticulum

/-! ### The file -/

namespace ConfigStore
open Storage
variable {fs : Fs} {cfg : Config}

/-- A short read is no record, so a load finds all of the file's or nothing. -/
theorem load_cases (fs : Fs) (calls : LoadCalls) :
    load fs calls = loadsAs (fs.files path) ∨ load fs calls = none := by
  unfold load
  split
  · exact .inr rfl
  unfold loadFile
  split_ifs with hfound
  · exact .inr rfl
  · exact .inr rfl
  · exact .inr rfl
  cases hf : fs.files path with
  | none => simp [internalExists, hf] at hfound
  | some b =>
    rw [Option.getD_some, Option.bind_some]
    by_cases hlen :
        (upTo calls.read.stopsAt (b.take Config.size)).length = (b.take Config.size).length
    · rw [upTo_eq_self hlen]
      exact .inl rfl
    · refine .inr (accept_of_length_ne ?_)
      have hle := length_upTo_le calls.read.stopsAt (b.take Config.size)
      have htake := List.length_take_le Config.size b
      omega

/-- The calls of a load that finds the file and reads it to its end. -/
structure Full (calls : LoadCalls) : Prop where
  existsOk : calls.existsOk = true
  read : calls.read.Full Config.size

theorem load_full {calls : LoadCalls} (hm : fs.mounted = true) (h : Full calls) :
    load fs calls = loadsAs (fs.files path) := by
  unfold load loadFile pathExists internalExists loadsAs
  rw [hm, h.existsOk, h.read.existsOk, h.read.openOk, h.read.readOk]
  cases hf : fs.files path with
  | none => simp
  | some b =>
    simp only [Option.isSome_some, Bool.not_true, Bool.and_self, if_false, Bool.false_eq_true,
      Bool.or_self, Option.getD_some, Option.bind_some]
    by_cases hlen : (b.take Config.size).length = Config.size
    · rw [h.read.upTo_eq hlen]
    · have hshort : (b.take Config.size).length ≤ Config.size := List.length_take_le _ _
      have hle := length_upTo_le calls.read.stopsAt (b.take Config.size)
      rw [accept_of_length_ne hlen, accept_of_length_ne (by omega)]

/-- After a save that has removed the old file, the new one is there or none. -/
theorem loadsAs_save (fs : Fs) {calls : SaveCalls} (hcalls : calls.write.Clears)
    (hversion : cfg.version = ({} : Config).version) :
    ((save fs calls cfg).1 = true →
      loadsAs ((save fs calls cfg).2.files path) = some (stamped cfg)) ∧
    ((save fs calls cfg).1 = false →
      loadsAs ((save fs calls cfg).2.files path) = loadsAs (fs.files path) ∨
        loadsAs ((save fs calls cfg).2.files path) = none) := by
  cases hm : fs.mounted with
  | false =>
    rw [save_of_unmounted hm]
    exact ⟨by simp, fun _ => .inl rfl⟩
  | true =>
    by_cases hu : UpToDate fs calls cfg
    · rw [save_of_upToDate hu]
      refine ⟨fun _ => ?_, by simp⟩
      rw [← load_eq hm]
      exact load_of_upToDate hu hversion
    have hnone := hcalls.cleared fs path
    rw [save_of_not_upToDate hu]
    unfold saveFile
    rw [hm]
    simp only [Bool.not_true, Bool.false_eq_true, if_false]
    split
    · refine ⟨by simp, fun _ => .inr ?_⟩
      rw [hnone]
      rfl
    · simp only [set_files, hnone, Option.getD_none, List.nil_append, decide_eq_true_eq,
        decide_eq_false_iff_not]
      constructor
      · intro hfull
        rw [upTo_eq_self hfull, loadsAs_eq_stamped hversion]
        exact List.take_of_length_le (Config.length_bytes _).le
      · intro hpart
        have hle := length_upTo_le calls.write.stopsAt (stamped cfg).bytes
        rw [Config.length_bytes] at hpart hle
        exact .inr (loadsAs_of_length_lt (lt_of_le_of_ne hle hpart))

theorem save_works {calls : SaveCalls} (hm : fs.mounted = true) (h : calls.write.Works) :
    (save fs calls cfg).1 = true := by
  by_cases hu : UpToDate fs calls cfg
  · rw [save_of_upToDate hu]
  · rw [save_of_not_upToDate hu]
    unfold saveFile
    rw [hm, h.openOk, h.stopsAt]
    simp [upTo]

end ConfigStore

/-! ### Requests -/

/-- Only a commit reaches the caller's state. -/
theorem ConfigProtocol.handleRequest_state {σ : Type} {fw : FwVersion} {request : Bytes}
    (cfg : Config) (transport : Option Transport) (save : SaveFn σ) (s : σ)
    (h : ∀ n r, ¬Commands request (ascii "commit") n r) :
    (handleRequest fw request cfg transport save s).2.2 = s := by
  by_cases hping : ∃ n r, Commands request (ascii "ping") n r
  · obtain ⟨n, r, hcmd⟩ := hping
    rw [handleRequest_ping cfg transport save s hcmd]
  by_cases hget : ∃ n r, Commands request (ascii "get_config") n r
  · obtain ⟨n, r, hcmd⟩ := hget
    rw [handleRequest_getConfig cfg transport save s hcmd]
  by_cases hset : ∃ n r, Commands request (ascii "set_config") n r
  · obtain ⟨n, r, hcmd⟩ := hset
    rw [handleRequest_setConfig cfg transport save s hcmd]
  have hnone : ¬∃ n r, Commands request (ascii "commit") n r := by
    rintro ⟨n, r, hcmd⟩
    exact h n r hcmd
  obtain ⟨msg, -, hrun⟩ := handleRequest_other cfg transport save s
    (no_command hping hget hnone hset)
  rw [hrun]

namespace Firmware
open ConfigProtocol ConfigStore Msgpack

/-- A request and its response. -/
structure Turn where
  request : Bytes
  response : Bytes

/-- What a turn does to the register, when `cfg` is in force: a commit stores, all else writes what
`Served` says. -/
inductive Turn.Orders (x : Turn) (cfg : Config) : Register.Op Config → Prop
  | commit {n : Nat} {r : Reader} {b : Bool} {ps : List (Bytes × Value)}
    (h : Commands x.request (ascii "commit") n r)
    (hdecode : decodeResponse x.response = some (okPair b :: ps)) : Orders x cfg (.store b)
  | other {b : Bool} {ps : List (Bytes × Value)} {cfg' : Config}
    (h : ∀ n r, ¬Commands x.request (ascii "commit") n r) (hserved : Served x.request cfg b ps cfg')
    (hdecode : decodeResponse x.response = some (okPair b :: ps)) : Orders x cfg (.write cfg')

abbrev RegisterStep : Register Config → Register.Op Config → Register Config → Prop :=
  Register.Step stamped {}

/-- The turns are what the register does in these steps. -/
def Told (xs : List Turn) (os : List (Rec (Register Config) (Register.Op Config))) : Prop :=
  List.Forall₂ (fun x o => x.Orders o.pre.running o.act) xs os

/-- The configuration in force, and the one in flash. -/
def registerOf (cfg : Config) (fs : Fs) : Register Config := ⟨cfg, loadsAs (fs.files path)⟩

/-- What the requests of a running device keep. -/
def Serviced (cfg : Config) (s : Fs × List SaveCalls) : Prop :=
  Keeps cfg s ∧ cfg.version = ({} : Config).version

theorem keptBy_serviced : KeptBy saveConfig Serviced := by
  rintro cfg s cfg' s' halters ⟨hkeeps, hversion⟩
  refine ⟨keptBy_saveConfig _ _ _ _ halters hkeeps, ?_⟩
  cases halters with
  | set ss => exact (version_applyAll cfg ss).trans hversion
  | saved h => exact hversion

/-- No save fails. -/
def Working (s : Fs × List SaveCalls) : Prop :=
  s.1.mounted = true ∧ ∀ calls ∈ s.2, calls.write.Works

theorem keptBy_working : KeptBy saveConfig fun _ => Working := by
  rintro cfg s cfg' s' halters ⟨hm, hworks⟩
  cases halters with
  | set ss => exact ⟨hm, hworks⟩
  | saved h =>
    cases h
    refine ⟨(save_mounted s.1 (s.2.headD {}) cfg).trans hm, ?_⟩
    intro calls hcalls
    exact hworks calls (List.mem_of_mem_tail hcalls)

theorem Working.save {s : Fs × List SaveCalls} (h : Working s) (cfg : Config) :
    (save s.1 (s.2.headD {}) cfg).1 = true := by
  refine save_works h.1 ?_
  cases hs : s.2 with
  | nil => exact ⟨⟨rfl, rfl⟩, rfl, rfl⟩
  | cons calls saves => exact h.2 calls (hs ▸ List.mem_cons_self ..)

theorem saveConfig_eq (cfg : Config) (s : Fs × List SaveCalls) : ∃ f done s',
    saveConfig = some f ∧ f cfg s = (done, s') ∧ save s.1 (s.2.headD {}) cfg = (done, s'.1) :=
  ⟨_, _, _, rfl, rfl, rfl⟩

/-- A commit is answered as the save has gone. -/
theorem commit_orders {q : Bytes} {n : Nat} {r : Reader}
    (hcmd : Commands q (ascii "commit") n r) {cfg : Config} {s : Fs × List SaveCalls}
    (h : Serviced cfg s) {response : Bytes}
    (hrun : lift (handleCommit cfg saveConfig s).1 = .ok response) :
    ∃ op, Turn.Orders ⟨q, response⟩ cfg op ∧
      RegisterStep (registerOf cfg s.1) op (registerOf cfg (handleCommit cfg saveConfig s).2.1) ∧
      (Working s → op ≠ .store false) := by
  obtain ⟨f, done, s', hf, hdone, hsave⟩ := saveConfig_eq cfg s
  obtain ⟨hsaved, hspoilt⟩ := loadsAs_save s.1 (clears_headD h.1.2.2) h.2
  rw [hsave] at hsaved hspoilt
  have hworks : Working s → Register.Op.store done ≠ (.store false : Register.Op Config) := by
    intro hs hfalse
    cases hfalse
    have hsave' := hs.save cfg
    rw [hsave] at hsave'
    cases hsave'
  rw [hf] at hrun ⊢
  refine ⟨.store done, ?_, ?_, hworks⟩
  · cases done with
    | false =>
      obtain ⟨-, bytes, hok, hdecode⟩ := handleCommit_failed hdone
      cases hok.symm.trans hrun
      exact .commit hcmd hdecode
    | true =>
      obtain ⟨-, bytes, hok, hdecode⟩ := handleCommit_saved hdone
      cases hok.symm.trans hrun
      exact .commit hcmd hdecode
  · cases done with
    | false =>
      rw [(handleCommit_failed hdone).1]
      exact .spoil (hspoilt rfl)
    | true =>
      have hcopy : loadsAs (s'.1.files path) = some (stamped cfg) := hsaved rfl
      rw [(handleCommit_saved hdone).1, registerOf, registerOf, hcopy]
      exact .store

/-- One request is one step of the register. -/
theorem handleRequest_orders {fw : FwVersion} {q : Bytes} {cfg cfg' : Config}
    {node : Option Transport} {s s' : Fs × List SaveCalls} {response : Bytes} (h : Serviced cfg s)
    (hfw : fw.length < 256)
    (hrun : handleRequest fw q cfg node saveConfig s = (.ok response, cfg', s')) :
    ∃ op, Turn.Orders ⟨q, response⟩ cfg op ∧
      RegisterStep (registerOf cfg s.1) op (registerOf cfg' s'.1) ∧
      (Working s → op ≠ .store false) := by
  by_cases hcommit : ∃ n r, Commands q (ascii "commit") n r
  · obtain ⟨n, r, hcmd⟩ := hcommit
    rw [handleRequest_commit cfg node saveConfig s hcmd] at hrun
    obtain ⟨hresponse, hstate⟩ := Prod.mk.inj hrun
    obtain ⟨rfl, rfl⟩ := Prod.mk.inj hstate
    exact commit_orders hcmd h hresponse
  · obtain ⟨response₁, cfg₁, s₁, b, ps, hrun₁, hdecode, hserved⟩ :
      Serves fw q cfg node saveConfig s := serves node saveConfig s hfw h.1.1
    obtain ⟨hresponse, hstate⟩ := Prod.mk.inj (hrun₁.symm.trans hrun)
    obtain ⟨rfl, rfl⟩ := Prod.mk.inj hstate
    cases hresponse
    have hother : ∀ n r, ¬Commands q (ascii "commit") n r := by
      intro n r hcmd
      exact hcommit ⟨n, r, hcmd⟩
    have hstate : s₁ = s := by
      have hkeeps : (handleRequest fw q cfg node saveConfig s).2.2 = s :=
        handleRequest_state cfg node saveConfig s hother
      rw [← hkeeps, hrun]
    rw [hstate]
    exact ⟨.write cfg₁, .other hother hserved hdecode, .write cfg₁, fun _ => by simp⟩

/-! ### The serial line -/

/-- What `send_response` writes. -/
def frame (response : Bytes) : Bytes :=
  if response.length > 0xFFFF then []
  else
    let n := UInt16.ofNat response.length
    [(n >>> 8).toUInt8, n.toUInt8] ++ response

theorem sendResponse_eq {σ : Type} (io : SerialConsole.Io σ) (response : Bytes) :
    SerialConsole.sendResponse io response =
      { io with written := io.written ++ frame response } := by
  unfold SerialConsole.sendResponse frame
  split
  · rw [List.append_nil]
  · dsimp only
    rw [List.append_assoc]

/-- The requests of these bytes, each answered and done with before the next. -/
structure Services (fw : FwVersion) (c : SerialConsole.Console) (bytes : Bytes)
    (io io' : SerialConsole.Io (Fs × List SaveCalls)) (xs : List Turn)
    (os : List (Rec (Register Config) (Register.Op Config))) : Prop where
  run : Run RegisterStep (registerOf io.cfg io.caller.1) os (registerOf io'.cfg io'.caller.1)
  told : Told xs os
  requests : xs.map Turn.request = (Mealy.run SerialConsole.absorb c bytes).2
  written : io'.written = io.written ++ xs.flatMap fun x => frame x.response
  serviced : Serviced io'.cfg io'.caller
  working : Working io.caller → Working io'.caller ∧ ∀ o ∈ os, o.act ≠ .store false

/-- A byte completes a request or none. -/
theorem tickByte_cases {fw : FwVersion} {node : Option Transport}
    {c c' : SerialConsole.Console} {io io' : SerialConsole.Io (Fs × List SaveCalls)} {b : UInt8}
    (h : SerialConsole.tickByte fw node saveConfig (c, io) b = .ok (c', io')) :
    (io' = io ∧ (SerialConsole.absorb c b).2 = []) ∨
      ∃ q, SerialConsole.serve fw node saveConfig io q = .ok io' ∧
        (SerialConsole.absorb c b).2 = [q] := by
  unfold SerialConsole.tickByte at h
  unfold SerialConsole.absorb
  dsimp only at h ⊢
  cases hstate : c.state with
  | lenHi =>
    rw [hstate] at h
    cases h
    exact .inl ⟨rfl, rfl⟩
  | lenLo =>
    rw [hstate] at h
    dsimp only at h ⊢
    split at h
    · rename_i hbad
      cases h
      rw [if_pos hbad]
      exact .inl ⟨rfl, rfl⟩
    · rename_i hgood
      cases h
      rw [if_neg hgood]
      exact .inl ⟨rfl, rfl⟩
  | payload =>
    rw [hstate] at h
    dsimp only at h ⊢
    obtain ⟨c₁, hstore, h⟩ := bind_eq_ok h
    unfold SerialConsole.store at hstore
    split at hstore
    swap
    · cases hstore
    cases hstore
    split at h
    · rename_i hfull
      obtain ⟨q, hrequest, h⟩ := bind_eq_ok h
      obtain ⟨io₁, hserve, h⟩ := bind_eq_ok h
      cases h
      unfold SerialConsole.request at hrequest
      split at hrequest
      · cases hrequest
        rw [if_pos hfull]
        exact .inr ⟨_, hserve, rfl⟩
      · cases hrequest
    · rename_i hmore
      cases h
      rw [if_neg hmore]
      exact .inl ⟨rfl, rfl⟩

theorem serve_orders {fw : FwVersion} (hfw : fw.length < 256) {node : Option Transport}
    {io io' : SerialConsole.Io (Fs × List SaveCalls)} {q : Bytes}
    (hio : Serviced io.cfg io.caller)
    (h : SerialConsole.serve fw node saveConfig io q = .ok io') : ∃ response op,
      Turn.Orders ⟨q, response⟩ io.cfg op ∧
      RegisterStep (registerOf io.cfg io.caller.1) op (registerOf io'.cfg io'.caller.1) ∧
      io'.written = io.written ++ frame response ∧ Serviced io'.cfg io'.caller ∧
      (Working io.caller → Working io'.caller ∧ op ≠ .store false) := by
  have hkept := SerialConsole.serve_keeps keptBy_serviced h hio
  have hworks := SerialConsole.serve_keeps keptBy_working h
  unfold SerialConsole.serve at h
  generalize hrun : handleRequest fw q io.cfg node saveConfig io.caller = run at h
  obtain ⟨resp, cfg, caller⟩ := run
  obtain ⟨response, hresp, rfl⟩ := map_eq_ok h
  subst hresp
  obtain ⟨op, horders, hstep, hstored⟩ := handleRequest_orders hio hfw hrun
  rw [sendResponse_eq] at hkept hworks ⊢
  exact ⟨response, op, horders, hstep, rfl, hkept, fun h => ⟨hworks h, hstored h⟩⟩

theorem services_of_tick {fw : FwVersion} (hfw : fw.length < 256) {node : Option Transport}
    {bytes : Bytes} {c c' : SerialConsole.Console}
    {io io' : SerialConsole.Io (Fs × List SaveCalls)}
    (h : bytes.foldlM (SerialConsole.tickByte fw node saveConfig) (c, io) = .ok (c', io'))
    (hio : Serviced io.cfg io.caller) :
    ∃ xs os, Services fw c bytes io io' xs os := by
  induction bytes generalizing c io with
  | nil =>
    cases h
    exact ⟨[], [], .nil, .nil, rfl, (List.append_nil _).symm, hio, fun h => ⟨h, by simp⟩⟩
  | cons b bytes ih =>
    rw [List.foldlM_cons] at h
    obtain ⟨⟨c₁, io₁⟩, hbyte, hrest⟩ := bind_eq_ok h
    have hconsole : c₁ = (SerialConsole.absorb c b).1 :=
      SerialConsole.console_of_tickByte _ _ hbyte
    have hrequests : (Mealy.run SerialConsole.absorb c (b :: bytes)).2 =
        (SerialConsole.absorb c b).2 ++ (Mealy.run SerialConsole.absorb c₁ bytes).2 := by
      rw [hconsole]
      rfl
    rcases tickByte_cases hbyte with ⟨rfl, hnone⟩ | ⟨q, hserve, hone⟩
    · obtain ⟨xs, os, hs⟩ := ih hrest hio
      refine ⟨xs, os, hs.run, hs.told, ?_, hs.written, hs.serviced, hs.working⟩
      rw [hrequests, hnone, hs.requests]
      rfl
    · obtain ⟨response, op, horders, hstep, hwritten, hserviced, hworks⟩ :=
        serve_orders hfw hio hserve
      obtain ⟨xs, os, hs⟩ := ih hrest hserviced
      refine ⟨⟨q, response⟩ :: xs, _, .cons hstep hs.run, .cons horders hs.told, ?_, ?_,
        hs.serviced, ?_⟩
      · rw [hrequests, hone, List.map_cons, hs.requests]
        rfl
      · rw [hs.written, hwritten, List.flatMap_cons, List.append_assoc]
      · intro h
        obtain ⟨hone, hop⟩ := hworks h
        obtain ⟨hall, hops⟩ := hs.working hone
        refine ⟨hall, ?_⟩
        intro o ho
        rcases List.mem_cons.mp ho with rfl | ho
        · exact hop
        · exact hops o ho

/-! ### Starts -/

/-- What `setup` makes of the configuration that it has loaded. -/
def named (identity : Identity) (cfg : Config) : Config :=
  if cfg.displayName.1.byteAt 0 = 0 then
    { cfg with displayName := setName cfg.displayName (defaultName identity) }
  else cfg

/-- The flash is there, and the calls of the load work. -/
def SetupInput.Finds (i : SetupInput) : Prop := i.mounts = true ∧ Full i.configLoad

/-- A start brings back the copy, which it may miss unless its calls work, and gives a name to a
configuration that has none, which it stores. -/
inductive Starts (i : SetupInput) (identity : Identity) : List (Register.Op Config) → Prop
  | found {found : Bool} (h : i.Finds → found = true) : Starts i identity [.restart found]
  | unnamed {found done : Bool} {cfg : Config} (h : i.Finds → found = true)
    (hname : cfg.displayName.1.byteAt 0 = 0) :
    Starts i identity [.restart found, .write (named identity cfg), .store done]

theorem assignName_fst (identity : Identity) (cfg : Config) (fs : Fs) (calls : SaveCalls) :
    (assignName identity cfg fs calls).1 = named identity cfg := by
  unfold assignName named
  split <;> rfl

theorem assignName_orders (identity : Identity) {cfg : Config} (fs : Fs) {calls : SaveCalls}
    (hcalls : calls.write.Clears) (hversion : cfg.version = ({} : Config).version) :
    (cfg.displayName.1.byteAt 0 ≠ 0 → (assignName identity cfg fs calls).2 = fs) ∧
      (cfg.displayName.1.byteAt 0 = 0 → ∃ done,
        RegisterStep (registerOf (named identity cfg) fs) (.store done)
          (registerOf (named identity cfg) (assignName identity cfg fs calls).2) ∧
        (fs.mounted = true → calls.write.Works → done = true)) := by
  unfold assignName named
  split
  · rename_i hempty
    generalize hnamed : ({ cfg with
      displayName := setName cfg.displayName (defaultName identity) } : Config) = c
    have hcversion : c.version = ({} : Config).version := by
      rw [← hnamed]
      exact hversion
    obtain ⟨hsaved, hspoilt⟩ := loadsAs_save fs hcalls hcversion
    refine ⟨fun h => absurd hempty h, fun _ => ?_⟩
    cases hdone : (save fs calls c).1 with
    | true =>
      refine ⟨true, ?_, fun _ _ => rfl⟩
      rw [registerOf, registerOf, hsaved hdone]
      exact .store
    | false =>
      refine ⟨false, .spoil (hspoilt hdone), ?_⟩
      intro hm hworks
      exact hdone.symm.trans (save_works hm hworks)
  · rename_i hset
    exact ⟨fun _ => rfl, fun h => absurd h hset⟩

theorem loadOrGenerate_mounted (fs : Fs) (i : SetupInput) :
    (loadOrGenerate fs i).2.mounted = fs.mounted := by
  unfold loadOrGenerate
  split
  · split
    · rfl
    · exact Storage.saveFile_mounted _ _ _ _
  · exact Storage.saveFile_mounted _ _ _ _

theorem assignName_mounted (identity : Identity) (cfg : Config) (fs : Fs) (calls : SaveCalls) :
    (assignName identity cfg fs calls).2.mounted = fs.mounted := by
  unfold assignName
  split
  · exact save_mounted _ _ _
  · rfl

/-- Flash mounts at every start, and no save of a configuration fails. -/
def Act.Works : Act → Prop
  | .powerOn i => i.mounts = true ∧ i.nameSave.write.Works
  | .loop i => ∀ calls ∈ i.saves, calls.write.Works
  | .requestWrite _ saves => ∀ calls ∈ saves, calls.write.Works

variable [CryptoLib]

/-- What the register's steps need of a device. -/
structure Lasting (d : Device) : Prop where
  terminated : Terminated d.cfg
  stored : Stored d.fs
  version : d.cfg.version = ({} : Config).version

abbrev Device.register (d : Device) : Register Config := registerOf d.cfg d.fs

theorem mounted_of_setup {flash : Fs} {i : SetupInput} {d : Device} (h : setup flash i = .ok d) :
    d.fs.mounted = i.mounts := by
  obtain ⟨telDest, hset⟩ := setUp_of_setup h
  have hsame := congrArg (fun p : Config × Fs => p.2.mounted) hset.named
  exact hsame.trans ((assignName_mounted _ _ _ _).trans (loadOrGenerate_mounted _ _))

theorem starts_of_setup {flash : Fs} (hflash : Stored flash) {i : SetupInput} (hi : i.Clears)
    {d : Device} (h : setup flash i = .ok d) (running : Config) :
    Lasting d ∧ ∃ os, Run RegisterStep (registerOf running flash) os d.register ∧
      Starts i d.node.localIdentity (os.map Rec.act) ∧
      (Act.Works (.powerOn i) → d.fs.mounted = true ∧ ∀ o ∈ os, o.act ≠ .store false) := by
  obtain ⟨telDest, hset⟩ := setUp_of_setup h
  have hnamed := hset.named
  generalize hcfg : (load { flash with mounted := i.mounts } i.configLoad).getD {} = cfg at hnamed
  generalize hfs : (loadOrGenerate { flash with mounted := i.mounts } i).2 = fs at hnamed
  have hfile : fs.files path = flash.files path := by
    rw [← hfs]
    exact loadOrGenerate_files { flash with mounted := i.mounts } i (by decide)
  have hstored : Stored fs := hflash.congr hfile
  have hstart : ∃ found, RegisterStep (registerOf running flash) (.restart found)
      (registerOf cfg fs) ∧ (i.Finds → found = true) := by
    have hafter : registerOf cfg fs = ⟨cfg, loadsAs (flash.files path)⟩ := by
      rw [registerOf, hfile]
    have hfound (hload : load { flash with mounted := i.mounts } i.configLoad =
        loadsAs (flash.files path)) :
        RegisterStep (registerOf running flash) (.restart true) (registerOf cfg fs) := by
      rw [hafter, ← hcfg, hload]
      exact .restart
    by_cases hfinds : i.Finds
    · exact ⟨true, hfound (load_full hfinds.1 hfinds.2), fun _ => rfl⟩
    rcases load_cases { flash with mounted := i.mounts } i.configLoad with hload | hload
    · exact ⟨true, hfound hload, fun _ => rfl⟩
    · refine ⟨false, ?_, fun h => absurd h hfinds⟩
      rw [hafter, ← hcfg, hload]
      exact .forget
  have hloaded : Terminated cfg ∧ cfg.version = ({} : Config).version := by
    rw [← hcfg]
    have hsame : Stored { flash with mounted := i.mounts } := hflash
    cases hload : load { flash with mounted := i.mounts } i.configLoad with
    | none => exact ⟨List.mem_replicate.mpr ⟨by decide, rfl⟩, rfl⟩
    | some c =>
      refine ⟨hsame.terminated hload, ?_⟩
      rcases load_cases { flash with mounted := i.mounts } i.configLoad with hall | hnone
      · obtain ⟨b, -, haccept⟩ := Option.bind_eq_some_iff.mp (hall.symm.trans hload)
        exact (accept_eq_some.mp haccept).2.1
      · cases hnone.symm.trans hload
  obtain ⟨hterminated, hversion⟩ := hloaded
  obtain ⟨found, hstart, hfinds⟩ := hstart
  have hcfg' : d.cfg = named d.node.localIdentity cfg := by
    rw [← assignName_fst _ _ fs i.nameSave, ← hnamed]
  obtain ⟨hkept, hstores⟩ := assignName_orders d.node.localIdentity fs hi hversion
  obtain ⟨hsound, hsaved⟩ := assignName_sound d.node.localIdentity hi hterminated hstored
  rw [← hnamed] at hkept hstores hsound hsaved
  dsimp only at hkept hstores hsound hsaved
  have hdversion : d.cfg.version = ({} : Config).version := by
    rw [hcfg', named]
    split <;> exact hversion
  refine ⟨⟨hsound, hsaved, hdversion⟩, ?_⟩
  have hfsmounted : fs.mounted = i.mounts := by
    rw [← hfs]
    exact loadOrGenerate_mounted { flash with mounted := i.mounts } i
  by_cases hname : cfg.displayName.1.byteAt 0 = 0
  · obtain ⟨done, hstore, hdone⟩ := hstores hname
    rw [← hcfg'] at hstore
    have hwrite : RegisterStep (registerOf cfg fs) (.write d.cfg) (registerOf d.cfg fs) :=
      .write d.cfg
    refine ⟨_, .cons hstart (.cons hwrite (.single hstore)), ?_, ?_⟩
    · rw [hcfg']
      exact .unnamed hfinds hname
    · rintro ⟨hm, hworks⟩
      refine ⟨(mounted_of_setup h).trans hm, ?_⟩
      simp [hdone (hfsmounted.trans hm) hworks]
  · have hsame : d.register = registerOf cfg fs := by
      rw [Device.register, hkept hname, hcfg', named, if_neg hname]
    rw [hsame]
    exact ⟨_, .single hstart, .found hfinds,
      fun hworks => ⟨(mounted_of_setup h).trans hworks.1, by simp⟩⟩

/-! ### Lives -/

/-- What shows of the register's steps in one act: the requests that come in on the serial line or
over Bluetooth, and the responses that go out. -/
def Shows (fw : FwVersion) (r : Rec Device Act)
    (os : List (Rec (Register Config) (Register.Op Config))) : Prop :=
  match r.act with
  | .powerOn i => Starts i r.post.node.localIdentity (os.map Rec.act)
  | .loop i => ∃ out xs, loop fw r.pre i = .ok (out, r.post) ∧
      xs.map Turn.request = (Mealy.run SerialConsole.absorb r.pre.console i.serial).2 ∧
      out.written = xs.flatMap (fun x => frame x.response) ∧ Told xs os
  | .requestWrite q saves => ∃ response,
      onRequestWrite fw r.pre q saves = .ok (response, r.post) ∧ Told [⟨q, response⟩] os

/-- What one act of a device's life does to the register. -/
structure Does (fw : FwVersion) (r : Rec Device Act)
    (os : List (Rec (Register Config) (Register.Op Config))) : Prop where
  run : Run RegisterStep r.pre.register os r.post.register
  shows : Shows fw r os

theorem Lasting.act {fw : FwVersion} (hfw : fw.length < 256) {d d' : Device} (h : Lasting d)
    {a : Act} (ha : a.Clears) (hact : act fw d a = .ok d') :
    Lasting d' ∧ ∃ os, Does fw ⟨d, a, d'⟩ os ∧
      (d.fs.mounted = true → a.Works → d'.fs.mounted = true ∧ ∀ o ∈ os, o.act ≠ .store false) := by
  cases a with
  | powerOn i =>
    obtain ⟨hlasting, os, hrun, hstarts, hworks⟩ :=
      starts_of_setup h.stored ha (ok_of_lift hact) d.cfg
    exact ⟨hlasting, os, ⟨hrun, hstarts⟩, fun _ => hworks⟩
  | loop i =>
    obtain ⟨⟨out, d₁⟩, hloop, hact⟩ := map_eq_ok hact
    cases hact
    obtain ⟨ticked, replies, hlooped⟩ := looped_of_loop hloop
    obtain ⟨io, hserial, hcfg, hfs, hwritten⟩ := hlooped.serial
    have hserviced : Serviced d.cfg (d.fs, i.saves) :=
      ⟨⟨h.terminated, h.stored, ha⟩, h.version⟩
    obtain ⟨xs, os, hs⟩ := services_of_tick hfw hserial hserviced
    have hrun : Run RegisterStep d.register os d₁.register := by
      rw [Device.register, Device.register, hcfg, hfs]
      exact hs.run
    have hlasting : Lasting d₁ :=
      ⟨hcfg ▸ hs.serviced.1.1, hfs ▸ hs.serviced.1.2.1, hcfg ▸ hs.serviced.2⟩
    refine ⟨hlasting, os,
      ⟨hrun, out, xs, hloop, hs.requests, hwritten.trans hs.written, hs.told⟩, ?_⟩
    intro hm hworks
    obtain ⟨hafter, hops⟩ := hs.working ⟨hm, hworks⟩
    exact ⟨hfs ▸ hafter.1, hops⟩
  | requestWrite q saves =>
    obtain ⟨⟨response, d₁⟩, hwrite, hact⟩ := map_eq_ok hact
    cases hact
    have hserviced : Serviced d.cfg (d.fs, saves) := ⟨⟨h.terminated, h.stored, ha⟩, h.version⟩
    have halters := handleRequest_alters fw q d.cfg (some d.node) saveConfig (d.fs, saves)
    have hrun := hwrite
    unfold onRequestWrite at hrun
    generalize hanswer : handleRequest fw q d.cfg (some d.node) saveConfig (d.fs, saves) = answer
      at hrun halters
    obtain ⟨resp, cfg, s⟩ := answer
    obtain ⟨bytes, hresp, hd⟩ := map_eq_ok hrun
    subst hresp
    cases hd
    have hkept := keptBy_serviced _ _ _ _ halters hserviced
    obtain ⟨op, horders, hstep, hop⟩ := handleRequest_orders hserviced hfw hanswer
    refine ⟨⟨hkept.1.1, hkept.1.2.1, hkept.2⟩, _,
      ⟨.single hstep, response, hwrite, .cons horders .nil⟩, ?_⟩
    intro hm hworks
    refine ⟨(keptBy_working _ _ _ _ halters ⟨hm, hworks⟩).1, ?_⟩
    intro o ho
    rw [List.mem_singleton.mp ho]
    exact hop ⟨hm, hworks⟩

/-- A life of a device is a run of the register. -/
theorem register_run {fw : FwVersion} (hfw : fw.length < 256) {d₀ d : Device}
    {rs : List (Rec Device Act)} (hrun : Run (Lives fw) d₀ rs d) (h : Lasting d₀)
    (hclears : ∀ r ∈ rs, r.act.Clears) : Lasting d ∧ ∃ oss, List.Forall₂ (Does fw) rs oss ∧
      Run RegisterStep d₀.register oss.flatten d.register ∧
      (d₀.fs.mounted = true → (∀ r ∈ rs, r.act.Works) →
        d.fs.mounted = true ∧ ∀ o ∈ oss.flatten, o.act ≠ .store false) := by
  induction hrun with
  | nil => exact ⟨h, [], .nil, .nil, fun hm _ => ⟨hm, by simp⟩⟩
  | @snoc rs s s' a hrun hact ih =>
    obtain ⟨hlasting, oss, hdoes, hsteps, hworks⟩ :=
      ih fun r hr => hclears r (List.mem_append_left _ hr)
    obtain ⟨hlasting', os, hlast, hwork⟩ :=
      hlasting.act hfw (hclears ⟨s, a, s'⟩ (by simp)) hact
    refine ⟨hlasting', oss ++ [os], List.rel_append hdoes (.cons hlast .nil), ?_, ?_⟩
    · rw [List.flatten_append, List.flatten_singleton]
      exact hsteps.append hlast.run
    · intro hm hall
      obtain ⟨hsm, hops⟩ := hworks hm fun r hr => hall r (List.mem_append_left _ hr)
      obtain ⟨hsm', hop⟩ := hwork hsm (hall ⟨s, a, s'⟩ (by simp))
      refine ⟨hsm', ?_⟩
      intro o ho
      rw [List.flatten_append, List.flatten_singleton] at ho
      rcases List.mem_append.mp ho with ho | ho
      · exact hops o ho
      · exact hop o ho

/-- Over every life in which each save finds and removes the old file, the register does what its
steps say. So a start whose load works has the configuration of the last commit that was answered
ok; only a save that has failed since may have lost it, and then it has the default. Where flash is
mounted and works, every commit is answered ok. -/
theorem commits_last {fw : FwVersion} (hfw : fw.length < 256) {flash : Fs}
    (hflash : Stored flash) {first : SetupInput} (hfirst : first.Clears) {d₀ d : Device}
    {rs : List (Rec Device Act)} (hsetup : setup flash first = .ok d₀)
    (hrun : Run (Lives fw) d₀ rs d) (hclears : ∀ r ∈ rs, r.act.Clears) :
    ∃ oss, List.Forall₂ (Does fw) rs oss ∧ Run RegisterStep d₀.register oss.flatten d.register ∧
      (first.mounts = true → (∀ r ∈ rs, r.act.Works) → ∀ o ∈ oss.flatten, o.act ≠ .store false) ∧
      ∀ pre o post, oss.flatten = pre ++ o :: post → o.act = .store true →
        (∀ p ∈ post, p.act ≠ .store true) →
        ∀ (i : SetupInput) (d' : Device), i.Finds → setup d.fs i = .ok d' →
          d'.cfg = named d'.node.localIdentity (stamped o.pre.running) ∨
            ((∃ p ∈ post, p.act = .store false) ∧ d'.cfg = named d'.node.localIdentity {}) := by
  obtain ⟨hlasting₀, -⟩ := starts_of_setup hflash hfirst hsetup {}
  obtain ⟨-, oss, hdoes, hsteps, hworks⟩ := register_run hfw hrun hlasting₀ hclears
  refine ⟨oss, hdoes, hsteps, fun hm hall => (hworks ?_ hall).2, ?_⟩
  · rw [mounted_of_setup hsetup]
    exact hm
  intro pre o post hoss ho hpost i d' hfinds hstart
  obtain ⟨telDest, hset⟩ := setUp_of_setup hstart
  have hload : load { d.fs with mounted := i.mounts } i.configLoad = d.register.saved :=
    load_full hfinds.1 hfinds.2
  have hcfg : d'.cfg = named d'.node.localIdentity (d.register.saved.getD {}) := by
    have hnamed := congrArg Prod.fst hset.named
    rw [hload, assignName_fst] at hnamed
    exact hnamed
  rw [hoss] at hsteps
  rcases Register.saved_of_run hsteps ho hpost with hsaved | ⟨hspoilt, hnone⟩
  · rw [hcfg, hsaved]
    exact .inl rfl
  · rw [hcfg, hnone]
    exact .inr ⟨hspoilt, rfl⟩

end Firmware

/-! ### Bob sets and commits -/

namespace Firmware
open ConfigProtocol ConfigStore Msgpack MsgpackFormat Vectors
attribute [local instance] lib

theorem Turn.Orders.store_of_commit {x : Turn} {cfg : Config} {op : Register.Op Config}
    (h : x.Orders cfg op) (hx : Request.commit.Form x.request) : ∃ done, op = .store done := by
  cases h with
  | commit h hdecode => exact ⟨_, rfl⟩
  | other h hserved hdecode =>
    obtain ⟨n, r, hcmd, -⟩ := commands_of_form hx
    exact absurd hcmd (h n r)

theorem settings_of_write {fw : FwVersion} {d d' : Device} {q : Request} {bytes : Bytes}
    {saves : List SaveCalls} (hq : q.Form bytes)
    (h : act fw d (.requestWrite bytes saves) = .ok d') : d'.cfg = applyAll d.cfg q.settings := by
  obtain ⟨⟨response, d₁⟩, hwrite, h⟩ := map_eq_ok h
  cases h
  unfold onRequestWrite at hwrite
  generalize hanswer : handleRequest fw bytes d.cfg (some d.node) saveConfig (d.fs, saves) = answer
    at hwrite
  obtain ⟨resp, cfg, s⟩ := answer
  obtain ⟨response, hresp, hd⟩ := map_eq_ok hwrite
  subst hresp
  cases hd
  exact (settings_of_form hq hanswer).1

/-- SF9 is set and committed, both over Bluetooth, and lasts. -/
theorem commits_last_bob : ∃ setBytes commitBytes d₀ d, setup empty bobStarts = .ok d₀ ∧
    (Request.setConfig [some (.int .sf 9)]).Form setBytes ∧ Request.commit.Form commitBytes ∧
    [.requestWrite setBytes [], .requestWrite commitBytes []].foldlM (act fwTest) d₀ = .ok d ∧
    ∀ d', setup d.fs bobStarts = .ok d' → d'.cfg.sf = 9 := by
  obtain ⟨setBytes, hset⟩ : ∃ bytes, (Request.setConfig [some (.int .sf 9)]).Form bytes :=
    ⟨_, .setConfig [] (.fix (by decide)) (.fixstr (by decide)) (.fixstr (by decide))
      (.cons (.int (.fixstr (by decide)) ⟨by decide, by decide⟩ (.posFix (n := 9) (by decide)))
        .nil)⟩
  obtain ⟨commitBytes, hcommit⟩ : ∃ bytes, Request.commit.Form bytes :=
    ⟨_, .simple (n := 0) [] (by simp) (.fix (by decide)) (.fixstr (by decide))
      (.fixstr (by decide))⟩
  have hfw : fwTest.length < 256 := by decide
  have hclears : ∀ q, (Act.requestWrite q []).Clears := by
    intro q calls hcalls
    cases hcalls
  obtain ⟨d₀, hd₀, h₀⟩ := setup_returns derivesKeys_lib stored_empty (i := bobStarts) ⟨rfl, rfl⟩
  obtain ⟨d₁, hd₁, h₁⟩ := act_returns hfw derivesKeys_lib h₀ (hclears setBytes)
  obtain ⟨d, hd, -⟩ := act_returns hfw derivesKeys_lib h₁ (hclears commitBytes)
  refine ⟨setBytes, commitBytes, d₀, d, hd₀, hset, hcommit, ?_, ?_⟩
  · rw [List.foldlM_cons, hd₁]
    simp only [bind, Except.bind, List.foldlM_cons, hd, List.foldlM_nil, pure, Except.pure]
  intro d' hd'
  have hrun : Run (Lives fwTest) d₀ [⟨d₀, .requestWrite setBytes [], d₁⟩,
      ⟨d₁, .requestWrite commitBytes [], d⟩] d := .cons hd₁ (.single hd)
  obtain ⟨oss, hdoes, -, hworks, hlast⟩ := commits_last hfw stored_empty
    (show bobStarts.Clears from ⟨rfl, rfl⟩) hd₀ hrun (by simp [hclears])
  have hnever := hworks rfl (by simp [Act.Works])
  have hcfg : d₁.cfg = applyAll d₀.cfg [.int .sf 9] := settings_of_write hset hd₁
  cases hdoes with
  | @cons _ os _ _ hfirst hrest =>
  cases hrest with
  | cons hsecond hnil =>
  cases hnil
  obtain ⟨response, -, htold⟩ := hsecond.shows
  cases htold with
  | @cons _ o _ _ horders hnil =>
  cases hnil
  have hstore : o.act = .store true := by
    obtain ⟨done, hdone⟩ := horders.store_of_commit hcommit
    cases done with
    | true => exact hdone
    | false => exact absurd hdone (hnever o (by simp))
  have hpre : o.pre = d₁.register := hsecond.run.cons_inv.1
  have hfinds : bobStarts.Finds := ⟨rfl, rfl, rfl, rfl, rfl, by simp [bobStarts]⟩
  rcases hlast os o [] (by simp) hstore (by simp) bobStarts d' hfinds hd' with h | ⟨⟨p, hp, -⟩, -⟩
  · rw [h, hpre, Device.register, registerOf, hcfg, named]
    split <;> rfl
  · cases hp

end Firmware
end Reticulum
