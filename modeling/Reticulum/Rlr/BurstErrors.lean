import Reticulum.Lib.Crc
import Reticulum.Rlr.SaveFaults

/-!
# Damaged configuration files

The checksum of the store is the 32-bit code of its polynomial over the bits of the file, the lowest
of each byte first. The stored field continues these bits, so a burst may reach into it.
-/

namespace Reticulum
namespace ConfigStore
open Endian

/-- `load` with its output: what `out` holds before, and what it holds at the return. -/
def loadInto (fs : Fs) (calls : LoadCalls) (out : Config) : Bool × Config :=
  match load fs calls with
  | some tmp => (true, tmp)
  | none => (false, out)

/-- The bit `i` of a file, the lowest of each byte first. -/
def bitAt (file : Bytes) (i : Nat) : Bool := (file.getD (i / 8) 0).toBitVec.getLsbD (i % 8)

def poly : BitVec 32 := 0xEDB88320#32

def fileBits (file : Bytes) : List Bool := file.flatMap fun b => Crc.bits 8 b.toBitVec

@[simp] theorem length_fileBits (file : Bytes) : (fileBits file).length = 8 * file.length := by
  induction file with
  | nil => rfl
  | cons b rest ih =>
    rw [fileBits, List.flatMap_cons, List.length_append, Crc.length_bits]
    show 8 + (fileBits rest).length = _
    rw [ih, List.length_cons]
    omega

theorem fileBits_append (a b : Bytes) : fileBits (a ++ b) = fileBits a ++ fileBits b :=
  List.flatMap_append

theorem getD_fileBits (file : Bytes) (i : Nat) : (fileBits file).getD i false = bitAt file i := by
  induction file generalizing i with
  | nil => simp [fileBits, bitAt]
  | cons b rest ih =>
    show (Crc.bits 8 b.toBitVec ++ fileBits rest).getD i false = _
    by_cases hi : i < 8
    · have hdiv : i / 8 = 0 := by omega
      have hmod : i % 8 = i := by omega
      rw [List.getD_append _ _ _ _ (by simpa using hi), bitAt, hdiv, hmod]
      simp [Crc.bits, List.getD_eq_getElem?_getD, hi]
    · obtain ⟨j, rfl⟩ : ∃ j, i = 8 + j := ⟨i - 8, by omega⟩
      have hdiv : (8 + j) / 8 = j / 8 + 1 := by omega
      have hmod : (8 + j) % 8 = j % 8 := by omega
      rw [List.getD_append_right _ _ _ _ (by simp), Crc.length_bits, Nat.add_sub_cancel_left, ih,
        bitAt, bitAt, hdiv, hmod, List.getD_cons_succ]

theorem eq_of_fileBits {a b : Bytes} (h : fileBits a = fileBits b) : a = b := by
  have hbit : ∀ i, bitAt a i = bitAt b i := by
    intro i
    rw [← getD_fileBits, h, getD_fileBits]
  have hlen : a.length = b.length := by
    have hbits := congrArg List.length h
    rw [length_fileBits, length_fileBits] at hbits
    omega
  apply List.ext_getElem hlen
  intro i hi hi'
  apply UInt8.toBitVec_inj.mp
  apply BitVec.eq_of_getLsbD_eq
  intro j hj
  have hdiv : (8 * i + j) / 8 = i := by omega
  have hmod : (8 * i + j) % 8 = j := by omega
  have h := hbit (8 * i + j)
  rw [bitAt, bitAt, hdiv, hmod, List.getD_eq_getElem a 0 hi, List.getD_eq_getElem b 0 hi'] at h
  exact h

/-- The mask is the polynomial if the lowest bit is set, and empty otherwise. -/
theorem crcBit_toBitVec (c : UInt32) : (crcBit c).toBitVec = Crc.shift poly c.toBitVec := by
  have hmask : (c &&& 1).toBitVec = BitVec.setWidth 32 (BitVec.ofBool (c.toBitVec.getLsbD 0)) := by
    rw [UInt32.toBitVec_and]
    exact BitVec.and_one_eq_setWidth_ofBool_getLsbD
  unfold crcBit Crc.shift
  cases hbit : c.toBitVec.getLsbD 0
  · rw [hbit] at hmask
    have hlow : c &&& 1 = 0 := UInt32.toBitVec_inj.mp hmask
    rw [hlow]
    simp
  · rw [hbit] at hmask
    have hlow : c &&& 1 = 1 := UInt32.toBitVec_inj.mp hmask
    have hall : (0xEDB88320 : UInt32) &&& (0 - 1) = 0xEDB88320 := by decide
    rw [hlow, hall]
    simp [poly]

theorem crcByte_toBitVec (c : UInt32) (b : UInt8) :
    (crcByte c b).toBitVec = Crc.feed poly c.toBitVec (Crc.bits 8 b.toBitVec) := by
  have hsteps : ∀ k (c : UInt32), ((List.range k).foldl (fun c _ => crcBit c) c).toBitVec =
      (Crc.shift poly)^[k] c.toBitVec := by
    intro k c
    induction k with
    | zero => rfl
    | succ k ih =>
      rw [List.range_succ, List.foldl_append, Function.iterate_succ_apply', ← ih]
      exact crcBit_toBitVec _
  have hwide : b.toUInt32.toBitVec = b.toBitVec.setWidth 32 := rfl
  have hbits : Crc.bits 8 b.toUInt32.toBitVec = Crc.bits 8 b.toBitVec := by
    apply List.map_congr_left
    intro i hi
    have hlt : i < 8 := List.mem_range.mp hi
    rw [hwide, BitVec.getLsbD_setWidth]
    simp
    omega
  have hhigh : b.toUInt32.toBitVec >>> 8 = 0#32 := by
    apply BitVec.eq_of_getLsbD_eq
    intro i hi
    rw [hwide, BitVec.getLsbD_ushiftRight, BitVec.getLsbD_setWidth,
      BitVec.getLsbD_of_ge b.toBitVec _ (by omega)]
    simp
  rw [crcByte, hsteps, UInt32.toBitVec_xor, Crc.iterate_shift, hbits, hhigh, BitVec.xor_zero]

theorem foldl_crcByte (c : UInt32) (data : Bytes) :
    (data.foldl crcByte c).toBitVec = Crc.feed poly c.toBitVec (fileBits data) := by
  induction data generalizing c with
  | nil => rfl
  | cons b rest ih =>
    rw [List.foldl_cons, ih, crcByte_toBitVec, ← Crc.feed_append]
    rfl

/-- A number that is stored with its low byte first has its bits in order. -/
theorem fileBits_toLe (k n : Nat) : fileBits (toLe k n) = (List.range (8 * k)).map n.testBit := by
  induction k generalizing n with
  | zero => rfl
  | succ k ih =>
    have hlow : Crc.bits 8 (UInt8.ofNat n).toBitVec = (List.range 8).map n.testBit := by
      apply List.map_congr_left
      intro i hi
      have hlt : i < 8 := List.mem_range.mp hi
      show (UInt8.ofNat n).toNat.testBit i = n.testBit i
      rw [UInt8.toNat_ofNat', Nat.testBit_mod_two_pow, decide_eq_true hlt, Bool.true_and]
    have hhigh : ∀ i, (n / 256).testBit i = n.testBit (8 + i) := by
      intro i
      rw [Nat.add_comm, ← Nat.testBit_div_two_pow]
    show Crc.bits 8 (UInt8.ofNat n).toBitVec ++ fileBits (toLe k (n / 256)) = _
    rw [ih, hlow, Nat.mul_succ, Nat.add_comm, List.range_add, List.map_append, List.map_map]
    congr 1
    exact List.map_congr_left fun i _ => hhigh i

/-- What `load` accepts is a word of the code. -/
theorem fileBits_of_accept {b : Bytes} {cfg : Config} (h : accept b = some cfg) : fileBits b =
    Crc.code poly 0xFFFFFFFF#32 0xFFFFFFFF#32 (fileBits cfg.head) := by
  obtain ⟨rfl, -, hcrc⟩ := accept_eq_some.mp h
  rw [Config.bytes, fileBits_append, Crc.code, hcrc, crcOf, fileBits_toLe]
  have hsum : (crc32 cfg.head).toBitVec =
      Crc.feed poly 0xFFFFFFFF#32 (fileBits cfg.head) ^^^ 0xFFFFFFFF#32 := by
    rw [crc32, UInt32.toBitVec_xor, foldl_crcByte]
    rfl
  rw [← hsum]
  rfl

/-- Of two images that are accepted neither is the other with a burst of errors. -/
theorem accept_of_burst {image corrupted : Bytes} {cfg cfg' : Config}
    (himage : accept image = some cfg) (hcorrupted : accept corrupted = some cfg') {p : Nat}
    (hburst : ∀ i, bitAt corrupted i ≠ bitAt image i → p ≤ i ∧ i < p + 32) :
    corrupted = image := by
  have hlen : (fileBits corrupted).length = (fileBits image).length := by
    rw [(accept_eq_some.mp hcorrupted).1, (accept_eq_some.mp himage).1, length_fileBits,
      length_fileBits, Config.length_bytes, Config.length_bytes]
  have hsame : Crc.feed poly 0xFFFFFFFF#32 (fileBits corrupted) =
      Crc.feed poly 0xFFFFFFFF#32 (fileBits image) := by
    rw [fileBits_of_accept hcorrupted, fileBits_of_accept himage, Crc.feed_code, Crc.feed_code]
  apply eq_of_fileBits
  apply Crc.eq_of_burst (by decide) hlen hsame p
  intro i hne
  rw [getD_fileBits, getD_fileBits] at hne
  exact hburst i hne

/-- What `load` gives back is the file, if it gives back anything. -/
theorem accept_of_load {fs : Fs} {calls : LoadCalls} {cfg : Config} {file : Bytes}
    (hf : fs.files path = some file) (hlen : file.length = Config.size)
    (h : load fs calls = some cfg) : accept file = some cfg := by
  unfold load at h
  split at h
  · cases h
  obtain ⟨b, hread, haccept⟩ := Option.bind_eq_some_iff.mp h
  unfold Storage.loadFile at hread
  split_ifs at hread
  have hall : file.take Config.size = file := List.take_of_length_le (le_of_eq hlen)
  rw [hf, Option.getD_some, hall] at hread
  have hb : b = file := by
    have hwhole : b.length = Config.size := by
      rw [(accept_eq_some.mp haccept).1, Config.length_bytes]
    rw [← Option.some.inj hread] at hwhole ⊢
    exact Storage.upTo_eq_self (by rw [hwhole, hlen])
  rw [← hb]
  exact haccept

/-- A save finds its record in the file or writes it. No load accepts what a burst of at most 32
bits makes of the record, and the output stays as it is. -/
theorem burst_refused {cfg : Config} (hversion : cfg.version = ({} : Config).version) :
    (∀ fs calls, UpToDate fs calls cfg ∨
      save fs calls cfg = Storage.saveFile fs path (stamped cfg).bytes calls.write) ∧
    ∀ corrupted p, corrupted.length = (stamped cfg).bytes.length →
      (∃ i, bitAt corrupted i ≠ bitAt (stamped cfg).bytes i) →
      (∀ i, bitAt corrupted i ≠ bitAt (stamped cfg).bytes i → p ≤ i ∧ i < p + 32) →
      ∀ fs calls out, fs.files path = some corrupted → loadInto fs calls out = (false, out) := by
  constructor
  · intro fs calls
    by_cases hu : UpToDate fs calls cfg
    · exact Or.inl hu
    · exact Or.inr (save_of_not_upToDate hu)
  · intro corrupted p hlen hsome hburst fs calls out hf
    unfold loadInto
    cases hload : load fs calls with
    | none => rfl
    | some tmp =>
      rw [Config.length_bytes] at hlen
      have haccept := accept_of_load hf hlen hload
      have heq := accept_of_burst (accept_stamped hversion) haccept hburst
      obtain ⟨i, hi⟩ := hsome
      exact absurd (by rw [heq]) hi

/-- The record of the defaults, damaged at the end of its name and at the start of its checksum. -/
def straddled : Bytes := ((stamped {}).bytes.set 75 0x80).set 76 0x01

theorem burst_refused_straddled :
    loadInto ⟨true, fun p => if p = path then some straddled else none⟩ {} { sf := 7 } =
      (false, { sf := 7 }) := by
  have hsome : ∃ i, bitAt straddled i ≠ bitAt (stamped {}).bytes i := ⟨607, by decide +kernel⟩
  apply (@burst_refused {} rfl).2 straddled 600 (by simp [straddled]) hsome
  · intro i hne
    by_contra hout
    have h75 : 75 ≠ i / 8 := by omega
    have h76 : 76 ≠ i / 8 := by omega
    rw [bitAt, straddled, List.getD_eq_getElem?_getD, List.getElem?_set_ne h76,
      List.getElem?_set_ne h75, ← List.getD_eq_getElem?_getD] at hne
    exact hne rfl
  · rfl

end ConfigStore
end Reticulum
