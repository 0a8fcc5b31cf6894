import Reticulum.Rns.MsgpackContract

/-!
# Reading undoes writing

Each call of the writer that does not throw appends one form of the format, and one that throws
appends nothing. The reads that go with the calls, in the same order, give the values back.
-/

namespace Reticulum
namespace Msgpack
open Endian MsgpackFormat

/-! ### The writer object refines the writer -/

/-- What a call returns on a writer with these bytes, and the bytes it leaves. -/
def Put.on {α : Type} (m : Put α) (buf : Bytes) : Except Exn α × Bytes := m.run.run buf

/-- What a call of `Msgpack` leaves of a writer: after a throw, the writer it was made on. -/
def Writer.outcome (w : Writer) : Except Exn Writer → Except Exn Unit × Bytes
  | .ok w' => (.ok (), w'.buf)
  | .error e => (.error e, w.buf)

inductive WriterCall where
  | arrayHeader (n : Nat)
  | mapHeader (n : Nat)
  | nil
  | boolVal (v : Bool)
  | uint8 (v : UInt8)
  | uint16 (v : UInt16)
  | uint32 (v : UInt32)
  | float32 (bits : UInt32)
  | str (s : Bytes)
  | bin (data : Bytes)
deriving DecidableEq

namespace WriterCall

def exec : WriterCall → Put Unit
  | .arrayHeader n => Put.arrayHeader n
  | .mapHeader n => Put.mapHeader n
  | .nil => Put.nil
  | .boolVal v => Put.boolVal v
  | .uint8 v => Put.uint8 v
  | .uint16 v => Put.uint16 v
  | .uint32 v => Put.uint32 v
  | .float32 bits => Put.float32 bits
  | .str s => Put.str s
  | .bin data => Put.bin data

def apply : WriterCall → Writer → Except Exn Writer
  | .arrayHeader n, w => w.arrayHeader n
  | .mapHeader n, w => w.mapHeader n
  | .nil, w => .ok w.nil
  | .boolVal v, w => .ok (w.boolVal v)
  | .uint8 v, w => .ok (w.uint8 v)
  | .uint16 v, w => .ok (w.uint16 v)
  | .uint32 v, w => .ok (w.uint32 v)
  | .float32 bits, w => .ok (w.float32 bits)
  | .str s, w => w.str s
  | .bin data, w => w.bin data

/-- What the writer has a form for. -/
def Fits : WriterCall → Prop
  | .arrayHeader n => n < 65536
  | .mapHeader n => n < 65536
  | .str s => s.length < 256
  | .bin data => data.length < 256
  | _ => True

end WriterCall

namespace Put

theorem be16_on (v : UInt16) (buf : Bytes) : (be16 v).on buf = (.ok (), buf ++ toBe 2 v.toNat) := by
  rw [← shift16_toBe, List.append_cons]
  rfl

theorem be32_on (v : UInt32) (buf : Bytes) : (be32 v).on buf = (.ok (), buf ++ toBe 4 v.toNat) := by
  rw [← shift32_toBe, List.append_cons, List.append_cons _ _ [_, _], List.append_cons _ _ [_]]
  rfl

/-- A tag, and what is written behind it. -/
theorem tag_on {m : Put Unit} {bs : Bytes} (tag : UInt8) (buf : Bytes)
    (h : m.on (buf ++ [tag]) = (.ok (), buf ++ [tag] ++ bs)) :
    (do append tag; m : Put Unit).on buf = (.ok (), buf ++ tag :: bs) := by
  rw [List.append_cons]
  exact h

theorem ofNat_or {n k : Nat} : UInt8.ofNat (k ||| n) = UInt8.ofNat k ||| UInt8.ofNat n := by
  apply UInt8.toNat_inj.mp
  simp

theorem toNat_header {n : Nat} (hn : n < 65536) : (UInt16.ofNat n).toNat = n := by
  rw [UInt16.toNat_ofNat']
  exact Nat.mod_eq_of_lt hn

theorem header_on (fix : Nat) (tag16 : UInt8) (what : String) (n : Nat) (w : Writer) :
    (header fix tag16 what n).on w.buf = w.outcome (w.header (UInt8.ofNat fix) tag16 what n) := by
  unfold header Writer.header
  split
  · rw [ofNat_or]
    rfl
  split
  · rename_i hn
    rw [tag_on tag16 w.buf (be16_on _ _), toNat_header hn]
    rfl
  · rfl

theorem arrayHeader_on (n : Nat) (w : Writer) :
    (arrayHeader n).on w.buf = w.outcome (w.arrayHeader n) := header_on 0x90 0xdc _ n w

theorem mapHeader_on (n : Nat) (w : Writer) :
    (mapHeader n).on w.buf = w.outcome (w.mapHeader n) := header_on 0x80 0xde _ n w

theorem str_on (s : Bytes) (w : Writer) : (str s).on w.buf = w.outcome (w.str s) := by
  unfold str Writer.str
  by_cases hshort : s.length < 32
  · rw [if_pos hshort, if_pos hshort, ofNat_or]
    exact tag_on _ w.buf rfl
  by_cases hlong : s.length < 256
  · rw [if_neg hshort, if_neg hshort, if_pos hlong, if_pos hlong]
    exact tag_on 0xd9 w.buf (tag_on _ _ rfl)
  · rw [if_neg hshort, if_neg hshort, if_neg hlong, if_neg hlong]
    rfl

theorem bin_on (data : Bytes) (w : Writer) : (bin data).on w.buf = w.outcome (w.bin data) := by
  unfold bin Writer.bin
  by_cases hlong : 256 ≤ data.length
  · rw [if_pos hlong, if_pos hlong]
    rfl
  · rw [if_neg hlong, if_neg hlong]
    exact tag_on 0xc4 w.buf (tag_on _ _ rfl)

end Put

namespace WriterCall

/-- The writer object does what the writer of `Msgpack` does. -/
theorem exec_on (call : WriterCall) (w : Writer) :
    call.exec.on w.buf = w.outcome (call.apply w) := by
  cases call with
  | arrayHeader n => exact Put.arrayHeader_on n w
  | mapHeader n => exact Put.mapHeader_on n w
  | nil => rfl
  | boolVal v => rfl
  | uint8 v => exact Put.tag_on 0xcc w.buf rfl
  | uint16 v => exact Put.tag_on 0xcd w.buf (Put.be16_on v _)
  | uint32 v => exact Put.tag_on 0xce w.buf (Put.be32_on v _)
  | float32 bits => exact Put.tag_on 0xca w.buf (Put.be32_on bits _)
  | str s => exact Put.str_on s w
  | bin data => exact Put.bin_on data w

theorem ok_iff_of {x : Except Exn Writer} {fits : Prop} (hok : fits → ∃ w, x = .ok w)
    (herr : ¬fits → ∃ e, x = .error e) : (∃ w, x = .ok w) ↔ fits := by
  refine ⟨?_, hok⟩
  rintro ⟨w, hw⟩
  by_contra hlarge
  obtain ⟨e, he⟩ := herr hlarge
  rw [he] at hw
  cases hw

/-- A call throws exactly on what the writer has no form for. -/
theorem apply_ok_iff (call : WriterCall) (w : Writer) :
    (∃ w', call.apply w = .ok w') ↔ call.Fits := by
  cases call with
  | arrayHeader n =>
    refine ok_iff_of (fun hn => ?_) fun hn => ?_
    · obtain ⟨bs, hw, -⟩ := Writer.arrayHeader_eq hn w
      exact ⟨_, hw⟩
    · exact ⟨_, Writer.header_large _ hn w⟩
  | mapHeader n =>
    refine ok_iff_of (fun hn => ?_) fun hn => ?_
    · obtain ⟨bs, hw, -⟩ := Writer.mapHeader_eq hn w
      exact ⟨_, hw⟩
    · exact ⟨_, Writer.header_large _ hn w⟩
  | str s =>
    refine ok_iff_of (fun hs => ?_) fun hs => ?_
    · obtain ⟨bs, hw, -⟩ := Writer.str_eq hs w
      exact ⟨_, hw⟩
    · have hlarge : ¬s.length < 256 := hs
      exact ⟨_, by rw [apply, Writer.str, if_neg (by omega), if_neg hlarge]⟩
  | bin data =>
    refine ok_iff_of (fun hb => ?_) fun hb => ?_
    · obtain ⟨bs, hw, -⟩ := Writer.bin_eq hb w
      exact ⟨_, hw⟩
    · have hlarge : ¬data.length < 256 := hb
      exact ⟨_, by rw [apply, Writer.bin, if_pos (by omega)]⟩
  | _ => exact ⟨fun _ => trivial, fun _ => ⟨_, rfl⟩⟩

/-- The number an integer call writes. -/
def number : WriterCall → Option Nat
  | .uint8 v => some v.toNat
  | .uint16 v => some v.toNat
  | .uint32 v => some v.toNat
  | _ => none

end WriterCall

/-! ### The reads that go with the calls -/

/-- `ReadsBack call read after`: `read` is a read for what `call` writes, and `after` is that read
with the written value in its output argument. Integers may be read in two ways. -/
inductive ReadsBack : WriterCall → ReadCall → ReadCall → Prop
  | arrayHeader (n out : Nat) :
    ReadsBack (.arrayHeader n) (.readArrayHeader out) (.readArrayHeader n)
  | mapHeader (n out : Nat) : ReadsBack (.mapHeader n) (.readMapHeader out) (.readMapHeader n)
  | nil : ReadsBack .nil .readNil .readNil
  | boolVal (v out : Bool) : ReadsBack (.boolVal v) (.readBool out) (.readBool v)
  | uint {call : WriterCall} {n : Nat} (h : call.number = some n) (out : UInt64) :
    ReadsBack call (.readUint out) (.readUint (UInt64.ofNat n))
  | int {call : WriterCall} {n : Nat} (h : call.number = some n) (out : Int64) :
    ReadsBack call (.readInt out) (.readInt (Int64.ofInt n))
  | float32 (bits out : UInt32) :
    ReadsBack (.float32 bits) (.readFloat32 out) (.readFloat32 bits)
  | str (s out : Bytes) : ReadsBack (.str s) (.readStr out) (.readStr s)
  | bin (data out : Bytes) : ReadsBack (.bin data) (.readBin out) (.readBin data)

/-- A call of the writer and a read that goes with it. -/
structure WriteRead where
  call : WriterCall
  read : ReadCall
  after : ReadCall
  reads : ReadsBack call read after

/-- Wherever these bytes stand, the read takes just them and succeeds. -/
def TakesBack (read after : ReadCall) (bs : Bytes) : Prop :=
  ∀ (r : ReaderState) (t : Bytes), r.Live → r.unread.rest = bs ++ t →
    read.exec r = some ((.bool true, after), r.move bs.length)

namespace TakesBack
open ReaderState

theorem of_refines {β : Type} {read : ReadCall} {bad : Ret × ReadCall} {mk : β → Ret × ReadCall}
    {f : Reader → Option (β × Reader)} {bs : Bytes} {v : β} {after : ReadCall}
    (h : Refines read.exec bad mk f) (hf : ∀ t, f ⟨bs ++ t⟩ = some (v, ⟨t⟩))
    (hv : mk v = (.bool true, after)) : TakesBack read after bs := by
  intro r t hr hrest
  rw [h.takes hr hrest (hf t), hv]

end TakesBack

theorem number_forms {call : WriterCall} {n : Nat} (h : call.number = some n) (w : Writer) :
    ∃ bs, call.apply w = .ok (w.append bs) ∧ IntForm n bs ∧ n < 256 ^ 4 ∧
      ∀ t, Reader.readUint ⟨bs ++ t⟩ = some (n, ⟨t⟩) := by
  cases call with
  | uint8 v =>
    obtain rfl := Option.some.inj h
    have hv : v.toNat < 256 ^ 1 := v.toNat_lt
    refine ⟨0xcc :: toBe 1 v.toNat, ?_, .uint8 hv, by omega, ?_⟩
    · simp [WriterCall.apply, Writer.uint8, toBe]
    · intro t
      simp [Reader.readUint, Reader.readBe_toBe t hv]
  | uint16 v =>
    obtain rfl := Option.some.inj h
    have hv : v.toNat < 256 ^ 2 := v.toNat_lt
    refine ⟨0xcd :: toBe 2 v.toNat, rfl, .uint16 hv, by omega, ?_⟩
    intro t
    simp [Reader.readUint, Reader.readBe_toBe t hv]
  | uint32 v =>
    obtain rfl := Option.some.inj h
    have hv : v.toNat < 256 ^ 4 := v.toNat_lt
    refine ⟨0xce :: toBe 4 v.toNat, rfl, .uint32 hv, hv, ?_⟩
    intro t
    simp [Reader.readUint, Reader.readBe_toBe t hv]
  | _ => cases h

/-- What a call appends is what its read takes. -/
theorem WriteRead.takesBack (p : WriteRead) {w w' : Writer} (h : p.call.apply w = .ok w') :
    ∃ bs, w' = w.append bs ∧ TakesBack p.read p.after bs := by
  obtain ⟨call, read, after, hreads⟩ := p
  have hfits : call.Fits := (call.apply_ok_iff w).mp ⟨w', h⟩
  have hsame : ∀ {w₁ : Writer}, call.apply w = .ok w₁ → w' = w₁ := by
    intro w₁ h₁
    exact Except.ok.inj (h.symm.trans h₁)
  cases hreads with
  | arrayHeader n out =>
    obtain ⟨bs, hw, hform⟩ := Writer.arrayHeader_eq hfits w
    exact ⟨bs, hsame hw, .of_refines ((ReaderState.readArrayHeader_refines out).map _)
      (fun t => Reader.readArrayHeader_form t hform) rfl⟩
  | mapHeader n out =>
    obtain ⟨bs, hw, hform⟩ := Writer.mapHeader_eq hfits w
    exact ⟨bs, hsame hw, .of_refines ((ReaderState.readMapHeader_refines out).map _)
      (fun t => Reader.readMapHeader_form t hform) rfl⟩
  | nil =>
    exact ⟨[0xc0], hsame rfl, .of_refines (v := ()) (ReaderState.readNil_refines.map _)
      (fun t => rfl) rfl⟩
  | boolVal v out =>
    refine ⟨[if v then 0xc3 else 0xc2], hsame rfl,
      .of_refines (v := v) ((ReaderState.readBool_refines out).map _) ?_ rfl⟩
    intro t
    cases v <;> rfl
  | @uint _ n hn out =>
    obtain ⟨bs, hw, -, -, hread⟩ := number_forms hn w
    exact ⟨bs, hsame hw, .of_refines ((ReaderState.readUint_refines out).map _) hread rfl⟩
  | @int _ n hn out =>
    obtain ⟨bs, hw, hform, hlt, -⟩ := number_forms hn w
    exact ⟨bs, hsame hw, .of_refines ((ReaderState.readInt_refines out).map _)
      (fun t => Reader.readInt_form t hform (by omega)) rfl⟩
  | float32 bits out =>
    exact ⟨0xca :: toBe 4 bits.toNat, hsame rfl,
      .of_refines ((ReaderState.readFloat32_refines out).map _)
        (fun t => Reader.readFloat32_form bits t) rfl⟩
  | str s out =>
    obtain ⟨bs, hw, hform⟩ := Writer.str_eq hfits w
    exact ⟨bs, hsame hw, .of_refines ((ReaderState.readStr_refines out).map _)
      (fun t => Reader.readStr_form t hform) rfl⟩
  | bin data out =>
    obtain ⟨bs, hw, hform⟩ := Writer.bin_eq hfits w
    exact ⟨bs, hsame hw, .of_refines ((ReaderState.readBin_refines out).map _)
      (fun t => Reader.readBin_form t hform) rfl⟩

/-! ### Sequences -/

theorem Put.on_bind {α β : Type} {m : Put α} {f : α → Put β} {b : β} {buf buf' : Bytes}
    (h : (m >>= f).on buf = (.ok b, buf')) :
    ∃ a buf₁, m.on buf = (.ok a, buf₁) ∧ (f a).on buf₁ = (.ok b, buf') := by
  have hrun : (m >>= f).on buf = (ExceptT.bindCont f (m.on buf).1).run (m.on buf).2 := rfl
  rcases hm : m.on buf with ⟨x, buf₁⟩
  rw [hrun, hm] at h
  cases x with
  | error e => cases h
  | ok a => exact ⟨a, buf₁, rfl, h⟩

/-- The bytes of a sequence of calls are taken back by the reads that go with them. -/
theorem reads_of_writes (ps : List WriteRead) {buf buf' : Bytes}
    (h : ((ps.map WriteRead.call).forM WriterCall.exec).on buf = (.ok (), buf')) :
    ∃ bs, buf' = buf ++ bs ∧ ∀ (r : ReaderState) (t : Bytes), r.Live → r.unread.rest = bs ++ t →
      ((ps.map WriteRead.read).mapM ReadCall.exec) r =
        some (ps.map fun p => (.bool true, p.after), r.move bs.length) := by
  induction ps generalizing buf with
  | nil =>
    obtain rfl : buf' = buf := (congrArg Prod.snd h).symm
    exact ⟨[], (List.append_nil buf').symm, fun r t hr hrest => rfl⟩
  | cons p ps ih =>
    have h : (p.call.exec >>= fun _ => (ps.map WriteRead.call).forM WriterCall.exec).on buf =
      (.ok (), buf') := h
    obtain ⟨_, buf₁, hhead, htail⟩ := Put.on_bind h
    have hout := p.call.exec_on ⟨buf⟩
    rw [hhead] at hout
    cases happly : p.call.apply ⟨buf⟩ with
    | error e =>
      rw [happly] at hout
      cases hout
    | ok w =>
      rw [happly] at hout
      obtain ⟨a, rfl, htake⟩ := p.takesBack happly
      obtain rfl : buf₁ = buf ++ a := congrArg Prod.snd hout
      obtain ⟨b, rfl, hrest⟩ := ih htail
      refine ⟨a ++ b, List.append_assoc buf a b, ?_⟩
      intro r t hr hbs
      rw [List.append_assoc] at hbs
      obtain ⟨hlive, hnext⟩ := hr.past hbs
      have hhead := htake r _ hr hbs
      have htail := hrest _ t hlive (congrArg Reader.rest hnext)
      rw [List.map_cons, List.mapM_cons]
      simp only [ReaderState.run_bind, hhead, Option.bind_some, htail, ReaderState.run_pure,
        ReaderState.move_move, List.length_append, List.map_cons]

/-- Reads over the bytes of calls that did not throw give back what was written, and end at the end
without an error; a call throws exactly when it has no form, and then leaves the bytes as they
were. -/
theorem reader_undoes_writer :
    (∀ (ps : List WriteRead) (bytes : Bytes),
      ((ps.map WriteRead.call).forM WriterCall.exec).on [] = (.ok (), bytes) →
      ∃ r, ((ps.map WriteRead.read).mapM ReadCall.exec) (.new bytes) =
        some (ps.map fun p => (.bool true, p.after), r) ∧ r.ok = true ∧ r.atEnd = true) ∧
    ∀ (call : WriterCall) (buf : Bytes),
      ((call.exec.on buf).1 = .ok () ↔ call.Fits) ∧
      ∀ e buf', call.exec.on buf = (.error e, buf') → buf' = buf := by
  refine ⟨?_, ?_⟩
  · intro ps bytes h
    obtain ⟨bs, hbs, hreads⟩ := reads_of_writes ps h
    obtain rfl : bytes = bs := hbs
    have hlive : (ReaderState.new bytes).Live := ⟨rfl, Nat.zero_le _⟩
    refine ⟨_, hreads _ [] hlive (List.append_nil bytes).symm, rfl, ?_⟩
    simp [ReaderState.atEnd, ReaderState.new]
  · intro call buf
    have hout := call.exec_on ⟨buf⟩
    have hfits := call.apply_ok_iff ⟨buf⟩
    cases happly : call.apply ⟨buf⟩ with
    | ok w =>
      rw [happly] at hout hfits
      rw [hout]
      refine ⟨⟨fun _ => hfits.mp ⟨w, rfl⟩, fun _ => rfl⟩, ?_⟩
      intro e buf' herr
      cases herr
    | error e =>
      rw [happly] at hout hfits
      rw [hout]
      constructor
      · constructor
        · intro hok
          cases hok
        · intro hcall
          obtain ⟨w, hw⟩ := hfits.mpr hcall
          cases hw
      · intro e' buf' herr
        exact (congrArg Prod.snd herr).symm

/-- A command with a number in it, read back as a signed one. -/
theorem reader_undoes_writer_command : ∃ r,
    ([.readMapHeader 0, .readStr [], .readInt 0].mapM ReadCall.exec)
      (.new [0x81, 0xa2, 115, 102, 0xcc, 10]) =
      some ([(.bool true, .readMapHeader 1), (.bool true, .readStr [115, 102]),
        (.bool true, .readInt 10)], r) ∧ r.ok = true ∧ r.atEnd = true := by
  obtain ⟨hreads, -⟩ := reader_undoes_writer
  have hbytes : ([.mapHeader 1, .str [115, 102], .uint8 10].forM WriterCall.exec).on [] =
      (.ok (), [0x81, 0xa2, 115, 102, 0xcc, 10]) := by decide
  exact hreads [⟨_, _, _, .mapHeader 1 0⟩, ⟨_, _, _, .str [115, 102] []⟩,
    ⟨.uint8 10, _, _, .int rfl 0⟩] _ hbytes

end Msgpack
end Reticulum
