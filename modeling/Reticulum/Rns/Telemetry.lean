import Reticulum.Rns.MsgpackElems

/-!
# The telemetry beacon (`rns/Telemetry`)

A beacon's payload is an array of nine elements whose schema grows at its tail only. `decode` is the
decoder that the wire specification in `docs/telemetry.md` gives to client apps, on the reader of
`rns/Msgpack`: it takes the elements it knows as far as the array has them.
-/

namespace Reticulum
open Msgpack MsgpackFormat Endian

namespace Telemetry

/-- `Snapshot`, with the bits of its floats. -/
structure Snapshot where
  havePosition : Bool := false
  lat : UInt32 := 0
  lon : UInt32 := 0
  batteryMv : UInt16 := 0
  routeCount : UInt16 := 0
  packetsForwarded : UInt32 := 0
  announcesRebroadcast : UInt32 := 0
  dataForwarded : UInt32 := 0
  inboundPackets : UInt32 := 0
  name : Bytes := []
deriving DecidableEq

def encode (s : Snapshot) : Except Exn Bytes := do
  let w : Writer := {}
  let w ← w.arrayHeader 9
  let w := if s.havePosition then (w.float32 s.lat).float32 s.lon else w.nil.nil
  let w := w.uint16 s.batteryMv
  let w := w.uint16 s.routeCount
  let w := w.uint32 s.packetsForwarded
  let w := w.uint32 s.announcesRebroadcast
  let w := w.uint32 s.dataForwarded
  let w := w.uint32 s.inboundPackets
  let w ← w.str s.name
  return w.buf

/-! ### The decoder -/

/-- What a client shows of a beacon. -/
structure Report where
  position : Option (UInt32 × UInt32)
  batteryMv : Nat
  routeCount : Nat
  packetsForwarded : Nat
  announcesRebroadcast : Option Nat
  dataForwarded : Option Nat
  inboundPackets : Option Nat
  name : Option Bytes
deriving DecidableEq

inductive Received where
  | alive
  | beacon (report : Report)
deriving DecidableEq

def readCoordinate (r : Reader) : Option (Option UInt32 × Reader) :=
  if r.peekType = .nil then r.readNil.map fun r => (none, r)
  else r.readFloat32.map fun v => (some v.1, v.2)

/-- An element that older beacons do not have. -/
def readIf {α : Type} (present : Prop) [Decidable present]
    (read : Reader → Option (α × Reader)) (r : Reader) : Option (Option α × Reader) :=
  if present then (read r).map fun v => (some v.1, v.2) else some (none, r)

def decode (appData : Bytes) : Option Received :=
  if appData = [] then some .alive
  else do
    let (arity, r) ← Reader.readArrayHeader ⟨appData⟩
    guard (5 ≤ arity)
    let (lat, r) ← readCoordinate r
    let (lon, r) ← readCoordinate r
    let (batteryMv, r) ← r.readUint
    let (routeCount, r) ← r.readUint
    let (packetsForwarded, r) ← r.readUint
    let (announcesRebroadcast, r) ← readIf (5 < arity) Reader.readUint r
    let (dataForwarded, r) ← readIf (6 < arity) Reader.readUint r
    let (inboundPackets, r) ← readIf (7 < arity) Reader.readUint r
    let (name, _) ← readIf (8 < arity) Reader.readStr r
    return .beacon {
      position := lat.bind fun lat => lon.map fun lon => (lat, lon)
      batteryMv, routeCount, packetsForwarded, announcesRebroadcast, dataForwarded,
      inboundPackets, name }

/-- What there is to see of a snapshot in an array of `n` elements. -/
def Snapshot.view (s : Snapshot) (n : Nat) : Report where
  position := if s.havePosition then some (s.lat, s.lon) else none
  batteryMv := s.batteryMv.toNat
  routeCount := s.routeCount.toNat
  packetsForwarded := s.packetsForwarded.toNat
  announcesRebroadcast := if 5 < n then some s.announcesRebroadcast.toNat else none
  dataForwarded := if 6 < n then some s.dataForwarded.toNat else none
  inboundPackets := if 7 < n then some s.inboundPackets.toNat else none
  name := if 8 < n then some s.name else none

/-! ### The elements -/

def coordinate (present : Bool) (bits : UInt32) : Bytes :=
  if present then 0xca :: toBe 4 bits.toNat else [0xc0]

/-- The elements, given the bytes of the last one. -/
def Snapshot.elements (s : Snapshot) (nameBytes : Bytes) : List Bytes :=
  [coordinate s.havePosition s.lat, coordinate s.havePosition s.lon,
    0xcd :: toBe 2 s.batteryMv.toNat, 0xcd :: toBe 2 s.routeCount.toNat,
    0xce :: toBe 4 s.packetsForwarded.toNat, 0xce :: toBe 4 s.announcesRebroadcast.toNat,
    0xce :: toBe 4 s.dataForwarded.toNat, 0xce :: toBe 4 s.inboundPackets.toNat, nameBytes]

theorem encode_eq_str (s : Snapshot) : ∃ w : Writer,
    w.buf = [0x99] ++ (s.elements []).flatten ∧ encode s = (w.str s.name).map Writer.buf := by
  have htag : (0x90 ||| 9 : UInt8) = 0x99 := by decide
  refine ⟨_, ?_, rfl⟩
  cases hp : s.havePosition <;>
    simp [htag, hp, Snapshot.elements, coordinate, Writer.append, Writer.float32, Writer.nil,
      Writer.uint16, Writer.uint32]

theorem flatten_elements (s : Snapshot) (nameBytes : Bytes) :
    (s.elements nameBytes).flatten = (s.elements []).flatten ++ nameBytes := by
  simp [Snapshot.elements]

theorem encode_eq {s : Snapshot} (h : s.name.length < 256) : ∃ nameBytes,
    StrForm s.name nameBytes ∧ encode s = .ok ([0x99] ++ (s.elements nameBytes).flatten) := by
  obtain ⟨w, hbuf, henc⟩ := encode_eq_str s
  obtain ⟨nameBytes, hstr, hform⟩ := Writer.str_eq h w
  refine ⟨nameBytes, hform, ?_⟩
  rw [henc, hstr, flatten_elements, ← List.append_assoc, ← hbuf]
  rfl

theorem encode_ok_iff (s : Snapshot) : (∃ payload, encode s = .ok payload) ↔
    s.name.length < 256 := by
  constructor
  · rintro ⟨payload, h⟩
    obtain ⟨w, -, henc⟩ := encode_eq_str s
    by_contra hlong
    have hstr : ¬s.name.length < 32 := by omega
    rw [henc, Writer.str, if_neg hstr, if_neg hlong] at h
    cases h
  · intro h
    obtain ⟨nameBytes, -, henc⟩ := encode_eq h
    exact ⟨_, henc⟩

/-- The payload of a name that is kept short, as the configuration keeps it. -/
theorem length_encode_le {s : Snapshot} {payload : Bytes} (hname : s.name.length < 32)
    (h : encode s = .ok payload) : payload.length ≤ 38 + s.name.length := by
  obtain ⟨w, hbuf, henc⟩ := encode_eq_str s
  rw [henc, Writer.str, if_pos hname] at h
  cases h
  have hlen : (s.elements []).flatten.length ≤ 36 := by
    cases hp : s.havePosition <;> simp [Snapshot.elements, coordinate, hp]
  simp only [Writer.append, hbuf, List.length_append, List.length_cons, List.length_nil]
  omega

/-! ### Reading back -/

theorem readCoordinate_coordinate (present : Bool) (bits : UInt32) (t : Bytes) :
    readCoordinate ⟨coordinate present bits ++ t⟩ =
      some (if present then some bits else none, ⟨t⟩) := by
  cases present with
  | false => rfl
  | true =>
    have hne : Reader.peekType ⟨coordinate true bits ++ t⟩ ≠ .nil := by
      show ElemType.ofTag 0xca ≠ .nil
      decide
    have hread := Reader.readFloat32_form bits t
    rw [readCoordinate, if_neg hne]
    exact congrArg (Option.map fun v => (some v.1, v.2)) hread

theorem readUint_uint16 (v : UInt16) (t : Bytes) :
    Reader.readUint ⟨0xcd :: toBe 2 v.toNat ++ t⟩ = some (v.toNat, ⟨t⟩) := by
  have hlt : v.toNat < 256 ^ 2 := v.toNat_lt
  simp [Reader.readUint, Reader.readBe_toBe t hlt]

theorem readUint_uint32 (v : UInt32) (t : Bytes) :
    Reader.readUint ⟨0xce :: toBe 4 v.toNat ++ t⟩ = some (v.toNat, ⟨t⟩) := by
  have hlt : v.toNat < 256 ^ 4 := v.toNat_lt
  simp [Reader.readUint, Reader.readBe_toBe t hlt]

theorem readIf_form {α : Type} {read : Reader → Option (α × Reader)} {bs t : Bytes} {v : α}
    (present : Prop) [Decidable present] (h : read ⟨bs ++ t⟩ = some (v, ⟨t⟩)) :
    readIf present read ⟨(if present then bs else []) ++ t⟩ =
      some (if present then some v else none, ⟨t⟩) := by
  unfold readIf
  split
  · rw [h]
    rfl
  · rfl

theorem flatten_take_cons (m k : Nat) (e : Bytes) (es : List Bytes) :
    ((e :: es).take (m - k)).flatten =
      (if k < m then e else []) ++ (es.take (m - (k + 1))).flatten := by
  rcases Nat.lt_or_ge k m with hk | hk
  · obtain ⟨d, rfl⟩ := Nat.exists_eq_add_of_lt hk
    rw [if_pos hk, show k + d + 1 - k = d + 1 by omega, show k + d + 1 - (k + 1) = d by omega]
    rfl
  · rw [if_neg (by omega), show m - k = 0 by omega, show m - (k + 1) = 0 by omega]
    rfl

/-- However many elements there are, the decoder reads those it knows. -/
theorem decode_elements (s : Snapshot) {n : Nat} {head nameBytes : Bytes} (t : Bytes) (hn : 5 ≤ n)
    (hhead : ArrayHead n head) (hname : StrForm s.name nameBytes) :
    decode (head ++ ((s.elements nameBytes).take n).flatten ++ t) = some (.beacon (s.view n)) := by
  have hne : head ++ ((s.elements nameBytes).take n).flatten ++ t ≠ [] := by
    cases hhead <;> simp
  have hsplit : ((s.elements nameBytes).take n).flatten = coordinate s.havePosition s.lat ++
      (coordinate s.havePosition s.lon ++ ((0xcd :: toBe 2 s.batteryMv.toNat) ++
      ((0xcd :: toBe 2 s.routeCount.toNat) ++ ((0xce :: toBe 4 s.packetsForwarded.toNat) ++
      ((if 5 < n then 0xce :: toBe 4 s.announcesRebroadcast.toNat else []) ++
      ((if 6 < n then 0xce :: toBe 4 s.dataForwarded.toNat else []) ++
      ((if 7 < n then 0xce :: toBe 4 s.inboundPackets.toNat else []) ++
      (if 8 < n then nameBytes else [])))))))) := by
    have hfive : (s.elements nameBytes).take n = (s.elements nameBytes).take 5 ++
        ((s.elements nameBytes).drop 5).take (n - 5) := by
      rw [← List.take_add, Nat.add_sub_cancel' hn]
    rw [hfive, List.flatten_append]
    simp only [Snapshot.elements, List.drop_succ_cons, List.drop_zero, flatten_take_cons]
    simp
  rw [decode, if_neg hne, List.append_assoc, Reader.readArrayHeader_form _ hhead, hsplit]
  simp only [List.append_assoc, Option.bind_eq_bind, Option.bind_some, guard, hn, if_true,
    readCoordinate_coordinate, readUint_uint16, readUint_uint32,
    readIf_form (5 < n) (readUint_uint32 _ _), readIf_form (6 < n) (readUint_uint32 _ _),
    readIf_form (7 < n) (readUint_uint32 _ _), readIf_form (8 < n) (Reader.readStr_form t hname)]
  cases hp : s.havePosition <;> simp [Snapshot.view, hp]

theorem decode_encode {s : Snapshot} {payload : Bytes} (h : encode s = .ok payload) :
    decode payload = some (.beacon (s.view 9)) := by
  obtain ⟨nameBytes, hname, henc⟩ := encode_eq ((encode_ok_iff s).mp ⟨payload, h⟩)
  rw [h] at henc
  cases henc
  have hall : (s.elements nameBytes).take 9 = s.elements nameBytes := rfl
  have hread := decode_elements s (n := 9) [] (by decide) (.fix (by decide)) hname
  rwa [hall, List.append_nil] at hread

theorem elems_of_mem_elements {s : Snapshot} {nameBytes e : Bytes}
    (hname : StrForm s.name nameBytes) (he : e ∈ s.elements nameBytes) : Elems 1 e := by
  have hcoordinate : ∀ bits : UInt32, Elems 1 (coordinate s.havePosition bits) := by
    intro bits
    cases s.havePosition with
    | false => exact .nil .done
    | true => simpa [coordinate] using Elems.float32 bits.toNat .done
  have huint16 : ∀ v : UInt16, Elems 1 (0xcd :: toBe 2 v.toNat) := by
    intro v
    simpa using Elems.int (.uint16 v.toNat_lt) .done
  have huint32 : ∀ v : UInt32, Elems 1 (0xce :: toBe 4 v.toNat) := by
    intro v
    simpa using Elems.int (.uint32 v.toNat_lt) .done
  simp only [Snapshot.elements, List.mem_cons, List.not_mem_nil, or_false] at he
  rcases he with rfl | rfl | rfl | rfl | rfl | rfl | rfl | rfl | rfl
  · exact hcoordinate s.lat
  · exact hcoordinate s.lon
  · exact huint16 s.batteryMv
  · exact huint16 s.routeCount
  · exact huint32 s.packetsForwarded
  · exact huint32 s.announcesRebroadcast
  · exact huint32 s.dataForwarded
  · exact huint32 s.inboundPackets
  · simpa using Elems.str hname .done

/-- The schema may shrink to its first five elements and grow by any others: what a decoder reads of
an element stays what the snapshot has there. -/
theorem schema_stable (s : Snapshot) :
    ((∃ payload, encode s = .ok payload) ↔ s.name.length < 256) ∧
    ∀ payload, encode s = .ok payload →
      decode payload = some (.beacon (s.view 9)) ∧
      ∃ elements : List Bytes, elements.length = 9 ∧ payload = 0x99 :: elements.flatten ∧
        (∀ e ∈ elements, Elems 1 e) ∧
        ∀ (n : Nat) (head t : Bytes), 5 ≤ n → ArrayHead n head →
          decode (head ++ (elements.take n).flatten ++ t) = some (.beacon (s.view n)) := by
  refine ⟨encode_ok_iff s, ?_⟩
  intro payload h
  refine ⟨decode_encode h, ?_⟩
  obtain ⟨nameBytes, hname, henc⟩ := encode_eq ((encode_ok_iff s).mp ⟨payload, h⟩)
  rw [h] at henc
  cases henc
  refine ⟨s.elements nameBytes, rfl, rfl, ?_, ?_⟩
  · intro e he
    exact elems_of_mem_elements hname he
  · intro n head t hn hhead
    exact decode_elements s t hn hhead hname

/-- The example of the wire specification, which counts 52 bytes for its 51. -/
def worked : Snapshot where
  havePosition := true
  lat := 0x421718b4
  lon := 0xc2f4d6e9
  batteryMv := 3948
  routeCount := 12
  packetsForwarded := 4231
  announcesRebroadcast := 3900
  dataForwarded := 331
  inboundPackets := 5023
  name := ascii "Rptr-aabbccdd"

theorem schema_stable_worked : ∃ payload, encode worked = .ok payload ∧ payload.length = 51 ∧
    decode payload = some (.beacon (worked.view 9)) := by
  obtain ⟨payload, h⟩ := (schema_stable worked).1.mpr (by decide)
  have hlen : (encode worked).map List.length = .ok 51 := by decide
  rw [h] at hlen
  exact ⟨payload, h, Except.ok.inj hlen, ((schema_stable worked).2 payload h).1⟩

end Telemetry
end Reticulum
