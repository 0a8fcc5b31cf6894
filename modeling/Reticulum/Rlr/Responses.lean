import Reticulum.Rlr.Settings

/-!
# The endpoint always answers

A response is decoded with the reader the requests are read with. Whatever the request, the bytes
that come back are one msgpack map, all of it, and its first pair says whether the request was
carried out.
-/

namespace Reticulum
open Msgpack MsgpackFormat Endian

inductive Value where
  | bool (b : Bool)
  | uint (n : Nat)
  | float32 (bits : UInt32)
  | str (s : Bytes)
  | bin (b : Bytes)
deriving DecidableEq

namespace Msgpack.Reader

def readValue (r : Reader) : Option (Value × Reader) :=
  match r.peekType with
  | .bool => r.readBool.map fun v => (.bool v.1, v.2)
  | .uint => r.readUint.map fun v => (.uint v.1, v.2)
  | .float32 => r.readFloat32.map fun v => (.float32 v.1, v.2)
  | .str => r.readStr.map fun v => (.str v.1, v.2)
  | .bin => r.readBin.map fun v => (.bin v.1, v.2)
  | _ => none

def readPairs : Nat → Reader → Option (List (Bytes × Value) × Reader)
  | 0, r => some ([], r)
  | n + 1, r => do
    let (key, r) ← r.readStr
    let (v, r) ← r.readValue
    let (ps, r) ← readPairs n r
    return ((key, v) :: ps, r)

end Msgpack.Reader

/-- The pairs of a response that is one map from its first byte to its last. -/
def decodeResponse (response : Bytes) : Option (List (Bytes × Value)) := do
  let (n, r) ← Reader.readMapHeader ⟨response⟩
  let (ps, r) ← r.readPairs n
  if r.atEnd then some ps else none

/-- The bytes the writer puts out for a value. -/
inductive ValueForm : Value → Bytes → Prop
  | bool (b : Bool) : ValueForm (.bool b) [if b then 0xc3 else 0xc2]
  | uint8 (v : UInt8) : ValueForm (.uint v.toNat) [0xcc, v]
  | uint16 (v : UInt16) : ValueForm (.uint v.toNat) (0xcd :: toBe 2 v.toNat)
  | uint32 (v : UInt32) : ValueForm (.uint v.toNat) (0xce :: toBe 4 v.toNat)
  | float32 (bits : UInt32) : ValueForm (.float32 bits) (0xca :: toBe 4 bits.toNat)
  | str {s bs : Bytes} (h : StrForm s bs) : ValueForm (.str s) bs
  | bin {b bs : Bytes} (h : BinForm b bs) : ValueForm (.bin b) bs

inductive PairsForm : List (Bytes × Value) → Bytes → Prop
  | nil : PairsForm [] []
  | cons {key kbs vbs bs : Bytes} {v : Value} {ps : List (Bytes × Value)} (hkey : StrForm key kbs)
    (hval : ValueForm v vbs) (rest : PairsForm ps bs) :
    PairsForm ((key, v) :: ps) (kbs ++ (vbs ++ bs))

theorem PairsForm.append {ps qs : List (Bytes × Value)} {bs cs : Bytes} (h : PairsForm ps bs)
    (h' : PairsForm qs cs) : PairsForm (ps ++ qs) (bs ++ cs) := by
  induction h with
  | nil => exact h'
  | cons hkey hval rest ih =>
    rw [List.append_assoc, List.append_assoc]
    exact .cons hkey hval ih

/-! ### Decoding what was written -/

namespace Msgpack.Reader

theorem readValue_form {v : Value} {bs : Bytes} (t : Bytes) (h : ValueForm v bs) :
    readValue ⟨bs ++ t⟩ = some (v, ⟨t⟩) := by
  cases h with
  | bool b => cases b <;> rfl
  | uint8 v =>
    have htag : ElemType.ofTag 0xcc = .uint := by decide
    have hread : readBe ⟨[v] ++ t⟩ 1 = some (ofBe [v], ⟨t⟩) := readBe_append t rfl
    have hval : ofBe [v] = v.toNat := by simp [ofBe]
    rw [hval, List.singleton_append] at hread
    simp [readValue, htag, readUint, hread]
  | uint16 v =>
    have htag : ElemType.ofTag 0xcd = .uint := by decide
    have hlt : v.toNat < 256 ^ 2 := v.toNat_lt
    simp [readValue, htag, readUint, readBe_toBe t hlt]
  | uint32 v =>
    have htag : ElemType.ofTag 0xce = .uint := by decide
    have hlt : v.toNat < 256 ^ 4 := v.toNat_lt
    simp [readValue, htag, readUint, readBe_toBe t hlt]
  | float32 bits =>
    have htag : ElemType.ofTag 0xca = .float32 := by decide
    have hread := readFloat32_form bits t
    simp only [readValue, List.cons_append, peekType_cons, htag]
    rw [← List.cons_append, hread]
    rfl
  | str h => simp [readValue, peekType_str t h, readStr_form t h]
  | bin h => simp [readValue, peekType_bin t h, readBin_form t h]

theorem readPairs_form {ps : List (Bytes × Value)} {bs : Bytes} (t : Bytes)
    (h : PairsForm ps bs) : readPairs ps.length ⟨bs ++ t⟩ = some (ps, ⟨t⟩) := by
  induction h with
  | nil => rfl
  | cons hkey hval rest ih =>
    rw [List.append_assoc, List.append_assoc, List.length_cons]
    simp [readPairs, readStr_form _ hkey, readValue_form _ hval, ih]

end Msgpack.Reader

theorem decodeResponse_form {ps : List (Bytes × Value)} {head bs : Bytes}
    (hhead : MapHead ps.length head) (h : PairsForm ps bs) :
    decodeResponse (head ++ bs) = some ps := by
  have hpairs := Reader.readPairs_form [] h
  rw [List.append_nil] at hpairs
  simp [decodeResponse, Reader.readMapHeader_form bs hhead, hpairs, Reader.atEnd]

/-! ### Writing -/

namespace Msgpack.Writer

/-- `w` has written the header `head` and behind it these pairs. -/
def Holds (w : Writer) (head : Bytes) (ps : List (Bytes × Value)) : Prop :=
  ∃ bs, w.buf = head ++ bs ∧ PairsForm ps bs

theorem Holds.decode {w : Writer} {head : Bytes} {ps : List (Bytes × Value)}
    (h : w.Holds head ps) (hhead : MapHead ps.length head) : decodeResponse w.buf = some ps := by
  obtain ⟨bs, hbuf, hps⟩ := h
  rw [hbuf, decodeResponse_form hhead hps]

theorem mapHeader_holds {n : Nat} (hn : n < 65536) : ∃ w head, mapHeader {} n = .ok w ∧
    MapHead n head ∧ w.Holds head [] := by
  obtain ⟨head, hw, hhead⟩ := mapHeader_eq hn {}
  exact ⟨_, head, hw, hhead, [], (List.append_nil head).symm, .nil⟩

/-- `put` writes the value `v`. -/
def Puts (put : Writer → Writer) (v : Value) : Prop :=
  ∃ vbs, ValueForm v vbs ∧ ∀ w, put w = w.append vbs

theorem puts_bool (b : Bool) : Puts (fun w => w.boolVal b) (.bool b) :=
  ⟨_, .bool b, fun _ => rfl⟩

theorem puts_uint8 (v : UInt8) : Puts (fun w => w.uint8 v) (.uint v.toNat) :=
  ⟨_, .uint8 v, fun _ => rfl⟩

theorem puts_uint16 (v : UInt16) : Puts (fun w => w.uint16 v) (.uint v.toNat) :=
  ⟨_, .uint16 v, fun _ => rfl⟩

theorem puts_uint32 (v : UInt32) : Puts (fun w => w.uint32 v) (.uint v.toNat) :=
  ⟨_, .uint32 v, fun _ => rfl⟩

theorem puts_float32 (bits : UInt32) : Puts (fun w => w.float32 bits) (.float32 bits) :=
  ⟨_, .float32 bits, fun _ => rfl⟩

/-- After a key any value may follow. -/
theorem Holds.key {w : Writer} {head key : Bytes} {ps : List (Bytes × Value)}
    (h : w.Holds head ps) (hkey : key.length < 256) : ∃ w', w.str key = .ok w' ∧
      ∀ {put : Writer → Writer} {v : Value}, Puts put v →
        (put w').Holds head (ps ++ [(key, v)]) := by
  obtain ⟨bs, hbuf, hps⟩ := h
  obtain ⟨kbs, hstr, hk⟩ := str_eq hkey w
  refine ⟨w.append kbs, hstr, ?_⟩
  rintro put v ⟨vbs, hval, hput⟩
  refine ⟨bs ++ (kbs ++ (vbs ++ [])), ?_, hps.append (.cons hk hval .nil)⟩
  simp [hput, append, hbuf]

theorem Holds.str {w : Writer} {head key s : Bytes} {ps : List (Bytes × Value)}
    (h : w.Holds head ps) (hkey : key.length < 256) (hs : s.length < 256) :
    ∃ w₁ w₂, w.str key = .ok w₁ ∧ w₁.str s = .ok w₂ ∧ w₂.Holds head (ps ++ [(key, .str s)]) := by
  obtain ⟨w₁, hw₁, hadd⟩ := h.key hkey
  obtain ⟨bs, hw₂, hform⟩ := str_eq hs w₁
  exact ⟨w₁, w₁.append bs, hw₁, hw₂, hadd ⟨bs, .str hform, fun _ => rfl⟩⟩

theorem Holds.bin {w : Writer} {head key b : Bytes} {ps : List (Bytes × Value)}
    (h : w.Holds head ps) (hkey : key.length < 256) (hb : b.length < 256) :
    ∃ w₁ w₂, w.str key = .ok w₁ ∧ w₁.bin b = .ok w₂ ∧ w₂.Holds head (ps ++ [(key, .bin b)]) := by
  obtain ⟨w₁, hw₁, hadd⟩ := h.key hkey
  obtain ⟨bs, hw₂, hform⟩ := bin_eq hb w₁
  exact ⟨w₁, w₁.append bs, hw₁, hw₂, hadd ⟨bs, .bin hform, fun _ => rfl⟩⟩

end Msgpack.Writer

theorem bind_of_ok {ε α β : Type} {x : Except ε α} {a : α} {f : α → Except ε β} {r : Except ε β}
    (hx : x = .ok a) (hf : f a = r) : (x >>= f) = r := by
  rw [hx]
  exact hf

namespace ConfigProtocol

theorem lift_of_ok {α : Type} {x : Except Exn α} {a : α} (h : x = .ok a) : lift x = .ok a := by
  rw [h]
  rfl

/-- The bytes decode to these pairs. -/
def Answers (response : Except Fault Bytes) (ps : List (Bytes × Value)) : Prop :=
  ∃ bytes, response = .ok bytes ∧ decodeResponse bytes = some ps

/-- The pair every response begins with. -/
def okPair (b : Bool) : Bytes × Value := (ascii "ok", .bool b)

theorem length_ok : (ascii "ok").length < 256 := by decide

theorem Answers.of_writer {x : Except Exn Bytes} {w : Writer} {head : Bytes}
    {ps : List (Bytes × Value)} (hx : x = .ok w.buf) (h : w.Holds head ps)
    (hhead : MapHead ps.length head) : Answers (lift x) ps :=
  ⟨w.buf, lift_of_ok hx, h.decode hhead⟩

theorem errorResponse_answers {msg : String} (h : (ascii msg).length < 256) :
    Answers (lift (errorResponse msg)) [okPair false, (ascii "err", .str (ascii msg))] := by
  obtain ⟨w₀, head, h₀, hhead, hw₀⟩ := Writer.mapHeader_holds (n := 2) (by decide)
  obtain ⟨w₁, h₁, hadd⟩ := hw₀.key length_ok
  have herr : (ascii "err").length < 256 := by decide
  obtain ⟨w₂, w₃, h₂, h₃, hw₃⟩ := (hadd (Writer.puts_bool false)).str herr h
  have hrun : errorResponse msg = .ok w₃.buf := by
    simp only [errorResponse, h₀, h₁, bind, Except.bind, pure, Except.pure]
    simp only [h₂, h₃]
  exact .of_writer hrun hw₃ hhead

theorem handlePing_answers {fw : FwVersion} (hfw : fw.length < 256)
    (transport : Option Transport) : ∃ ps, Answers (lift (handlePing fw transport))
      (okPair true :: ps) := by
  have hversion : (ascii "version").length < 256 := by decide
  cases transport with
  | none =>
    obtain ⟨w₀, head, h₀, hhead, hw₀⟩ := Writer.mapHeader_holds (n := 2) (by decide)
    obtain ⟨w₁, h₁, hadd⟩ := hw₀.key length_ok
    obtain ⟨w₂, w₃, h₂, h₃, hw₃⟩ := (hadd (Writer.puts_bool true)).str hversion hfw
    have hrun : handlePing fw none = .ok w₃.buf := by
      simp only [handlePing, h₀, h₁, bind, Except.bind, pure, Except.pure]
      simp only [h₂, h₃]
    exact ⟨_, .of_writer hrun hw₃ hhead⟩
  | some t =>
    have hkey : (ascii "identity_hash").length < 256 := by decide
    have hhash : t.localIdentity.identityHash.length < 256 := by
      rw [t.localIdentity.identityHash_length]
      decide
    obtain ⟨w₀, head, h₀, hhead, hw₀⟩ := Writer.mapHeader_holds (n := 3) (by decide)
    obtain ⟨w₁, h₁, hadd⟩ := hw₀.key length_ok
    obtain ⟨w₂, w₃, h₂, h₃, hw₃⟩ := (hadd (Writer.puts_bool true)).bin hkey hhash
    obtain ⟨w₄, w₅, h₄, h₅, hw₅⟩ := hw₃.str hversion hfw
    have hrun : handlePing fw (some t) = .ok w₅.buf := by
      simp only [handlePing, h₀, h₁, bind, Except.bind, pure, Except.pure]
      simp only [h₂, h₃, h₄, h₅]
    exact ⟨_, .of_writer hrun hw₅ hhead⟩

/-- What `get_config` reports. -/
def report (cfg : Config) : List (Bytes × Value) :=
  [(ascii "freq_hz", .uint cfg.freqHz.toNat), (ascii "bw_hz", .uint cfg.bwHz.toNat),
    (ascii "sf", .uint cfg.sf.toNat), (ascii "cr", .uint cfg.cr.toNat),
    (ascii "txp_dbm", .uint cfg.txpDbm.toInt32.toUInt32.toNat),
    (ascii "lat_udeg", .uint cfg.latitudeUdeg.toUInt32.toNat),
    (ascii "lon_udeg", .uint cfg.longitudeUdeg.toUInt32.toNat),
    (ascii "alt_m", .uint cfg.altitudeM.toUInt32.toNat),
    (ascii "batt_mult", .float32 cfg.battMult),
    (ascii "display_name", .str (cfg.displayName.1.takeWhile (· ≠ 0)))]

/-- The NUL at its end makes `display_name` a string. -/
def Terminated (cfg : Config) : Prop := 0 ∈ cfg.displayName.1

theorem length_takeWhile_lt (cfg : Config) :
    (cfg.displayName.1.takeWhile (· ≠ 0)).length < 256 := by
  have hle := (List.takeWhile_prefix (l := cfg.displayName.1) (· ≠ 0)).length_le
  rw [cfg.displayName.2] at hle
  omega

theorem handleGetConfig_answers {cfg : Config} (h : Terminated cfg) :
    Answers (handleGetConfig cfg) (okPair true :: report cfg) := by
  have hname : cString cfg.displayName = .ok (cfg.displayName.1.takeWhile (· ≠ 0)) :=
    if_pos (List.contains_iff_mem.mpr h)
  have hkeys : ∀ key ∈ [ascii "freq_hz", ascii "bw_hz", ascii "sf", ascii "cr", ascii "txp_dbm",
      ascii "lat_udeg", ascii "lon_udeg", ascii "alt_m", ascii "batt_mult", ascii "display_name"],
      key.length < 256 := by decide
  simp only [List.forall_mem_cons] at hkeys
  obtain ⟨kfreq, kbw, ksf, kcr, ktxp, klat, klon, kalt, kbatt, kname, -⟩ := hkeys
  obtain ⟨w₀, head, h₀, hhead, hw₀⟩ := Writer.mapHeader_holds (n := 11) (by decide)
  obtain ⟨w₁, h₁, hadd⟩ := hw₀.key length_ok
  obtain ⟨w₂, h₂, hadd⟩ := (hadd (Writer.puts_bool true)).key kfreq
  obtain ⟨w₃, h₃, hadd⟩ := (hadd (Writer.puts_uint32 cfg.freqHz)).key kbw
  obtain ⟨w₄, h₄, hadd⟩ := (hadd (Writer.puts_uint32 cfg.bwHz)).key ksf
  obtain ⟨w₅, h₅, hadd⟩ := (hadd (Writer.puts_uint8 cfg.sf)).key kcr
  obtain ⟨w₆, h₆, hadd⟩ := (hadd (Writer.puts_uint8 cfg.cr)).key ktxp
  obtain ⟨w₇, h₇, hadd⟩ := (hadd (Writer.puts_uint32 cfg.txpDbm.toInt32.toUInt32)).key klat
  obtain ⟨w₈, h₈, hadd⟩ := (hadd (Writer.puts_uint32 cfg.latitudeUdeg.toUInt32)).key klon
  obtain ⟨w₉, h₉, hadd⟩ := (hadd (Writer.puts_uint32 cfg.longitudeUdeg.toUInt32)).key kalt
  obtain ⟨w₁₀, h₁₀, hadd⟩ := (hadd (Writer.puts_uint32 cfg.altitudeM.toUInt32)).key kbatt
  obtain ⟨w₁₁, w₁₂, h₁₁, h₁₂, hw₁₂⟩ :=
    (hadd (Writer.puts_float32 cfg.battMult)).str kname (length_takeWhile_lt cfg)
  refine ⟨w₁₂.buf, ?_, hw₁₂.decode hhead⟩
  refine bind_of_ok hname (lift_of_ok ?_)
  refine bind_of_ok h₀ (bind_of_ok h₁ (bind_of_ok h₂ (bind_of_ok h₃ (bind_of_ok h₄ ?_))))
  refine bind_of_ok h₅ (bind_of_ok h₆ (bind_of_ok h₇ (bind_of_ok h₈ (bind_of_ok h₉ ?_))))
  exact bind_of_ok h₁₀ (bind_of_ok h₁₁ (bind_of_ok h₁₂ rfl))

theorem handleCommit_none {σ : Type} (cfg : Config) (s : σ) :
    (handleCommit cfg none s).2 = s ∧ Answers (lift (handleCommit cfg none s).1)
      [okPair false, (ascii "err", .str (ascii "commit not configured"))] :=
  ⟨rfl, errorResponse_answers (by decide)⟩

theorem handleCommit_failed {σ : Type} {f : Config → σ → Bool × σ} {cfg : Config} {s s' : σ}
    (h : f cfg s = (false, s')) : (handleCommit cfg (some f) s).2 = s' ∧
      Answers (lift (handleCommit cfg (some f) s).1)
        [okPair false, (ascii "err", .str (ascii "commit failed"))] := by
  simp only [handleCommit, h]
  exact ⟨trivial, errorResponse_answers (by decide)⟩

theorem handleCommit_saved {σ : Type} {f : Config → σ → Bool × σ} {cfg : Config} {s s' : σ}
    (h : f cfg s = (true, s')) : (handleCommit cfg (some f) s).2 = s' ∧
      Answers (lift (handleCommit cfg (some f) s).1) [okPair true] := by
  obtain ⟨w₀, head, h₀, hhead, hw₀⟩ := Writer.mapHeader_holds (n := 1) (by decide)
  obtain ⟨w₁, h₁, hadd⟩ := hw₀.key length_ok
  simp only [handleCommit, h]
  refine ⟨trivial, .of_writer ?_ (hadd (Writer.puts_bool true)) hhead⟩
  simp only [h₀, h₁, bind, Except.bind, pure, Except.pure]

theorem handleCommit_answers {σ : Type} (cfg : Config) (save : SaveFn σ) (s : σ) :
    (∃ msg, Answers (lift (handleCommit cfg save s).1) [okPair false, (ascii "err", .str msg)]) ∨
      Answers (lift (handleCommit cfg save s).1) [okPair true] := by
  cases save with
  | none => exact .inl ⟨_, (handleCommit_none cfg s).2⟩
  | some f =>
    cases hf : f cfg s with
    | mk done s' =>
      cases done with
      | false => exact .inl ⟨_, (handleCommit_failed hf).2⟩
      | true => exact .inr (handleCommit_saved hf).2

theorem handleSetConfig_applied {r : Reader} {cfg cfg' : Config} {n applied : Nat}
    (h : applySetFields n r cfg 0 = (some applied, cfg')) :
    (handleSetConfig r cfg n).2 = cfg' ∧ Answers (lift (handleSetConfig r cfg n).1)
      [okPair true, (ascii "set", .uint (UInt16.ofNat applied).toNat)] := by
  have hkey : (ascii "set").length < 256 := by decide
  obtain ⟨w₀, head, h₀, hhead, hw₀⟩ := Writer.mapHeader_holds (n := 2) (by decide)
  obtain ⟨w₁, h₁, hadd⟩ := hw₀.key length_ok
  obtain ⟨w₂, h₂, hadd⟩ := (hadd (Writer.puts_bool true)).key hkey
  have hrun : handleSetConfig r cfg n =
      (.ok (w₂.uint16 (UInt16.ofNat applied)).buf, cfg') := by
    simp only [handleSetConfig, h, h₀, h₁, bind, Except.bind, pure, Except.pure, h₂]
  rw [hrun]
  exact ⟨rfl, .of_writer rfl (hadd (Writer.puts_uint16 _)) hhead⟩

theorem handleSetConfig_malformed {r : Reader} {cfg cfg' : Config} {n : Nat}
    (h : applySetFields n r cfg 0 = (none, cfg')) : handleSetConfig r cfg n =
      (errorResponse "malformed set_config payload", cfg') := by
  simp only [handleSetConfig, h]

end ConfigProtocol
end Reticulum
