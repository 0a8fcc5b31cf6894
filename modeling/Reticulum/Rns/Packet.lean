import Reticulum.Rns.Bytes

/-!
# The wire format (`rns/Packet`)

A `Packet` is a parsed view that keeps the wire it came from. Its constructor is private in the
source, so every packet is the image of `from_wire_bytes`; here the structure carries that fact as
proof fields, and `fromWireBytes_eq_ok_iff` says that parsing is exactly the inverse of `wireBytes`.
-/

namespace Reticulum

inductive HeaderType where
  | header1 | header2
deriving DecidableEq, Repr

inductive TransportType where
  | broadcast | transport
deriving DecidableEq, Repr

inductive DestinationType where
  | single | group | plain | link
deriving DecidableEq, Repr

inductive PacketType where
  | data | announce | linkRequest | proof
deriving DecidableEq, Repr

def contextNone : UInt8 := 0x00
def contextPathResponse : UInt8 := 0x0B
def contextKeepalive : UInt8 := 0xFA
def contextLinkclose : UInt8 := 0xFC
def contextLrproof : UInt8 := 0xFF

def destHashLen : Nat := 16
def transportIdLen : Nat := 16
def header1MinLen : Nat := 1 + 1 + 16 + 1
def header2MinLen : Nat := 1 + 1 + 16 + 16 + 1

def ifacFlagBit : UInt8 := 0x80
def contextFlagBit : UInt8 := 0x20
def transportBit : UInt8 := 0x10
def header2Bits : UInt8 := 0x40
def lowNibbleMask : UInt8 := 0x0F

/-! ### The flags byte -/

def headerTypeOf (flags : UInt8) : HeaderType :=
  if (flags >>> 6) &&& 0x01 = 0 then .header1 else .header2

def transportTypeOf (flags : UInt8) : TransportType :=
  if (flags >>> 4) &&& 0x01 = 0 then .broadcast else .transport

def destinationTypeOf (flags : UInt8) : DestinationType :=
  match ((flags >>> 2) &&& 0x03).toNat with
  | 0 => .single
  | 1 => .group
  | 2 => .plain
  | _ => .link

def packetTypeOf (flags : UInt8) : PacketType :=
  match (flags &&& 0x03).toNat with
  | 0 => .data
  | 1 => .announce
  | 2 => .linkRequest
  | _ => .proof

def contextFlagOf (flags : UInt8) : Bool := (flags >>> 5) &&& 0x01 != 0

/-- `new_flags` of `originator_to_header_2`. -/
def toHeader2Flags (flags : UInt8) : UInt8 :=
  header2Bits ||| transportBit ||| (flags &&& contextFlagBit) ||| (flags &&& lowNibbleMask)

/-- `new_flags` of `strip_transport_id_to_header_1`. -/
def toHeader1Flags (flags : UInt8) : UInt8 := flags &&& lowNibbleMask

theorem headerTypeOf_toHeader2Flags : ∀ f, headerTypeOf (toHeader2Flags f) = .header2 :=
  forall_byte (by decide +kernel)

theorem ifac_toHeader2Flags : ∀ f, toHeader2Flags f &&& ifacFlagBit = 0 :=
  forall_byte (by decide +kernel)

@[simp] theorem low_toHeader2Flags :
    ∀ f, toHeader2Flags f &&& lowNibbleMask = f &&& lowNibbleMask :=
  forall_byte (by decide +kernel)

@[simp] theorem contextFlagOf_toHeader2Flags :
    ∀ f, contextFlagOf (toHeader2Flags f) = contextFlagOf f :=
  forall_byte (by decide +kernel)

theorem headerTypeOf_toHeader1Flags : ∀ f, headerTypeOf (toHeader1Flags f) = .header1 :=
  forall_byte (by decide +kernel)

theorem ifac_toHeader1Flags : ∀ f, toHeader1Flags f &&& ifacFlagBit = 0 :=
  forall_byte (by decide +kernel)

@[simp] theorem low_toHeader1Flags :
    ∀ f, toHeader1Flags f &&& lowNibbleMask = f &&& lowNibbleMask :=
  forall_byte (by decide +kernel)

/-- Packet type and destination type live in the low nibble, which no relay rewrites. -/
theorem types_low : ∀ f, packetTypeOf (f &&& lowNibbleMask) = packetTypeOf f ∧
    destinationTypeOf (f &&& lowNibbleMask) = destinationTypeOf f :=
  forall_byte (by decide +kernel)

theorem packetTypeOf_congr {f g : UInt8} (h : f &&& lowNibbleMask = g &&& lowNibbleMask) :
    packetTypeOf f = packetTypeOf g := by
  rw [← (types_low f).1, h, (types_low g).1]

theorem destinationTypeOf_congr {f g : UInt8} (h : f &&& lowNibbleMask = g &&& lowNibbleMask) :
    destinationTypeOf f = destinationTypeOf g := by
  rw [← (types_low f).2, h, (types_low g).2]

/-! ### Packets -/

/-- The parsed view of a wire; `from_wire_bytes` is the only way to get one. -/
structure Packet where
  wireBytes : Bytes
  flags : UInt8
  hops : UInt8
  transportId : Bytes
  destinationHash : Bytes
  context : UInt8
  data : Bytes
  ifac_clear : flags &&& ifacFlagBit = 0
  transportId_length :
    transportId.length = if headerTypeOf flags = .header2 then transportIdLen else 0
  destinationHash_length : destinationHash.length = destHashLen
  wireBytes_eq :
    wireBytes = flags :: hops :: (transportId ++ (destinationHash ++ context :: data))
deriving DecidableEq

namespace Packet

def headerType (p : Packet) : HeaderType := headerTypeOf p.flags
def transportType (p : Packet) : TransportType := transportTypeOf p.flags
def destinationType (p : Packet) : DestinationType := destinationTypeOf p.flags
def packetType (p : Packet) : PacketType := packetTypeOf p.flags
def contextFlag (p : Packet) : Bool := contextFlagOf p.flags

/-- The wire is a function of the other fields, so they determine the packet. -/
theorem ext_fields {p q : Packet} (hf : p.flags = q.flags) (hh : p.hops = q.hops)
    (ht : p.transportId = q.transportId) (hd : p.destinationHash = q.destinationHash)
    (hc : p.context = q.context) (hb : p.data = q.data) : p = q := by
  obtain ⟨pw, pf, ph, pt, pd, pc, pb, _, _, _, hp⟩ := p
  obtain ⟨qw, qf, qh, qt, qd, qc, qb, _, _, _, hq⟩ := q
  simp only at hf hh ht hd hc hb
  subst hf hh ht hd hc hb
  obtain rfl : pw = qw := hp.trans hq.symm
  rfl

def ofFields (flags hops : UInt8) (transportId destinationHash : Bytes) (context : UInt8)
    (data : Bytes) (hi : flags &&& ifacFlagBit = 0)
    (ht : transportId.length = if headerTypeOf flags = .header2 then transportIdLen else 0)
    (hd : destinationHash.length = destHashLen) : Packet :=
  ⟨_, flags, hops, transportId, destinationHash, context, data, hi, ht, hd, rfl⟩

end Packet

namespace Bytes

theorem eq_cons_cons_drop {raw : Bytes} (h : 2 ≤ raw.length) :
    raw = raw.byteAt 0 :: raw.byteAt 1 :: raw.drop 2 := by
  match raw, h with
  | a :: b :: rest, _ => rfl

theorem drop_eq_slice_append (raw : Bytes) (off len : Nat) :
    raw.drop off = raw.slice off len ++ raw.drop (off + len) := by
  rw [slice, ← List.drop_drop, List.take_append_drop]

theorem drop_eq_byteAt_cons (raw : Bytes) {off : Nat} (h : off < raw.length) :
    raw.drop off = raw.byteAt off :: raw.sliceFrom (off + 1) := by
  rw [List.drop_eq_getElem_cons h, byteAt, List.getD_eq_getElem?_getD, List.getElem?_eq_getElem h]
  rfl

end Bytes

namespace Packet

/-- `is_header_2` and the two length tests, with the layout they select. -/
theorem parse_layout (raw : Bytes) (tidLen : Nat) (h : 2 + tidLen + 16 < raw.length) :
    raw = raw.byteAt 0 :: raw.byteAt 1 :: (raw.slice 2 tidLen ++ (raw.slice (2 + tidLen) 16 ++
      raw.byteAt (2 + tidLen + 16) :: raw.sliceFrom (2 + tidLen + 16 + 1))) := by
  conv_lhs => rw [Bytes.eq_cons_cons_drop (by omega : 2 ≤ raw.length),
    Bytes.drop_eq_slice_append raw 2 tidLen, Bytes.drop_eq_slice_append raw (2 + tidLen) 16,
    Bytes.drop_eq_byteAt_cons raw h]

def fromWireBytes (raw : Bytes) : Except Exn Packet :=
  if h₁ : raw.length < header1MinLen then
    .error (.invalidArgument "Packet::from_wire_bytes: shorter than HEADER_1 minimum")
  else if h₂ : raw.byteAt 0 &&& ifacFlagBit ≠ 0 then
    .error (.invalidArgument
      "Packet::from_wire_bytes: IFAC-flagged packets not supported (bit 7 set)")
  else
    if h₃ : headerTypeOf (raw.byteAt 0) = .header2 then
      if h₄ : raw.length < header2MinLen then
        .error (.invalidArgument "Packet::from_wire_bytes: shorter than HEADER_2 minimum")
      else
        .ok {
          wireBytes := raw
          flags := raw.byteAt 0
          hops := raw.byteAt 1
          transportId := raw.slice 2 transportIdLen
          destinationHash := raw.slice (2 + transportIdLen) destHashLen
          context := raw.byteAt (2 + transportIdLen + destHashLen)
          data := raw.sliceFrom (2 + transportIdLen + destHashLen + 1)
          ifac_clear := not_not.mp h₂
          transportId_length := by
            rw [if_pos h₃, Bytes.length_slice_of_le]
            simp only [header2MinLen, transportIdLen] at h₄ ⊢; omega
          destinationHash_length := Bytes.length_slice_of_le (by
            simp only [header2MinLen, transportIdLen, destHashLen] at h₄ ⊢; omega)
          wireBytes_eq := parse_layout raw transportIdLen (by
            simp only [header2MinLen, transportIdLen] at h₄ ⊢; omega) }
    else
      .ok {
        wireBytes := raw
        flags := raw.byteAt 0
        hops := raw.byteAt 1
        transportId := []
        destinationHash := raw.slice 2 destHashLen
        context := raw.byteAt (2 + destHashLen)
        data := raw.sliceFrom (2 + destHashLen + 1)
        ifac_clear := not_not.mp h₂
        transportId_length := by rw [if_neg h₃]; rfl
        destinationHash_length := Bytes.length_slice_of_le (by
          simp only [header1MinLen, destHashLen] at h₁ ⊢; omega)
        wireBytes_eq := by
          have h := parse_layout raw 0 (by
            simp only [header1MinLen] at h₁; omega)
          simpa [Bytes.slice, destHashLen] using h }

theorem wireBytes_of_fromWireBytes {raw : Bytes} {p : Packet} (h : fromWireBytes raw = .ok p) :
    p.wireBytes = raw := by
  unfold fromWireBytes at h
  split at h
  · cases h
  split at h
  · cases h
  split at h
  · split at h
    · cases h
    · cases h; rfl
  · cases h; rfl

theorem length_wireBytes (p : Packet) :
    p.wireBytes.length = 19 + p.transportId.length + p.data.length := by
  have := p.destinationHash_length
  simp only [destHashLen] at this
  rw [p.wireBytes_eq]; simp; omega

theorem fromWireBytes_wireBytes (p : Packet) : fromWireBytes p.wireBytes = .ok p := by
  have hlen := p.length_wireBytes
  have htid := p.transportId_length
  have hdst : p.destinationHash.length = 16 := p.destinationHash_length
  have h0 : p.wireBytes.byteAt 0 = p.flags := by rw [p.wireBytes_eq]; rfl
  have h1 : p.wireBytes.byteAt 1 = p.hops := by rw [p.wireBytes_eq]; rfl
  have hmin : ¬ p.wireBytes.length < header1MinLen := by simp only [header1MinLen]; omega
  have hifac : ¬ p.wireBytes.byteAt 0 &&& ifacFlagBit ≠ 0 := by rw [h0]; simp [p.ifac_clear]
  unfold fromWireBytes
  rw [dif_neg hmin, dif_neg hifac]
  by_cases h2 : headerTypeOf p.flags = .header2
  · have htid' : p.transportId.length = 16 := by simpa [h2, transportIdLen] using htid
    rw [dif_pos (by rw [h0]; exact h2), dif_neg (by simp only [header2MinLen]; omega)]
    congr 1
    have hdrop : p.wireBytes.drop 2 =
        p.transportId ++ (p.destinationHash ++ p.context :: p.data) := by
      rw [p.wireBytes_eq]; rfl
    have hd18 : p.wireBytes.drop 18 = p.destinationHash ++ p.context :: p.data := by
      rw [show (18 : Nat) = 2 + 16 from rfl, ← List.drop_drop, hdrop, ← htid', List.drop_left]
    have hd34 : p.wireBytes.drop 34 = p.context :: p.data := by
      rw [show (34 : Nat) = 18 + 16 from rfl, ← List.drop_drop, hd18, ← hdst, List.drop_left]
    have hd35 : p.wireBytes.drop 35 = p.data := by
      rw [show (35 : Nat) = 34 + 1 from rfl, ← List.drop_drop, hd34]; rfl
    refine ext_fields h0 h1 ?_ ?_ ?_ hd35
    · simp only [Bytes.slice, hdrop, transportIdLen, ← htid', List.take_left]
    · simp only [Bytes.slice, transportIdLen, destHashLen, hd18]
      rw [← hdst, List.take_left]
    · have := Bytes.drop_eq_byteAt_cons p.wireBytes (by omega : 34 < p.wireBytes.length)
      rw [hd34] at this
      exact (List.cons.inj this).1.symm
  · have htid' : p.transportId.length = 0 := by simpa [h2] using htid
    have hnil : p.transportId = [] := List.length_eq_zero_iff.mp htid'
    rw [dif_neg (by rw [h0]; exact h2)]
    congr 1
    have hd2 : p.wireBytes.drop 2 = p.destinationHash ++ p.context :: p.data := by
      rw [p.wireBytes_eq, hnil]; rfl
    have hd18 : p.wireBytes.drop 18 = p.context :: p.data := by
      rw [show (18 : Nat) = 2 + 16 from rfl, ← List.drop_drop, hd2, ← hdst, List.drop_left]
    have hd19 : p.wireBytes.drop 19 = p.data := by
      rw [show (19 : Nat) = 18 + 1 from rfl, ← List.drop_drop, hd18]; rfl
    refine ext_fields h0 h1 hnil.symm ?_ ?_ hd19
    · simp only [Bytes.slice, destHashLen, hd2]
      rw [← hdst, List.take_left]
    · have := Bytes.drop_eq_byteAt_cons p.wireBytes (by omega : 18 < p.wireBytes.length)
      rw [hd18] at this
      exact (List.cons.inj this).1.symm

/-- Parsing is the inverse of `wireBytes`. -/
theorem fromWireBytes_eq_ok_iff {raw : Bytes} {p : Packet} :
    fromWireBytes raw = .ok p ↔ p.wireBytes = raw :=
  ⟨wireBytes_of_fromWireBytes, fun h => h ▸ fromWireBytes_wireBytes p⟩

theorem fromWireBytes_error {raw : Bytes} {e : Exn} (h : fromWireBytes raw = .error e) :
    ∃ what, e = .invalidArgument what := by
  unfold fromWireBytes at h
  split at h
  · cases h; exact ⟨_, rfl⟩
  split at h
  · cases h; exact ⟨_, rfl⟩
  split at h
  · split at h
    · cases h; exact ⟨_, rfl⟩
    · cases h
  · cases h

/-! ### Packing and header conversion -/

def packHeader1 (flags hops : UInt8) (destHash : Bytes) (context : UInt8) (body : Bytes) :
    Except Exn Bytes :=
  if destHash.length ≠ destHashLen then
    .error (.invalidArgument "Packet::pack_header_1: dest_hash must be 16 bytes")
  else .ok ([flags] ++ [hops] ++ destHash ++ [context] ++ body)

def packHeader2 (flags hops : UInt8) (transportId destHash : Bytes) (context : UInt8)
    (body : Bytes) : Except Exn Bytes :=
  if transportId.length ≠ transportIdLen then
    .error (.invalidArgument "Packet::pack_header_2: transport_id must be 16 bytes")
  else if destHash.length ≠ destHashLen then
    .error (.invalidArgument "Packet::pack_header_2: dest_hash must be 16 bytes")
  else .ok ([flags] ++ [hops] ++ transportId ++ destHash ++ [context] ++ body)

def originatorToHeader2 (p : Packet) (transportId : Bytes) : Except Exn Packet := do
  if p.headerType ≠ .header1 then
    throw (.invalidArgument "originator_to_header_2: source must be HEADER_1")
  if transportId.length ≠ transportIdLen then
    throw (.invalidArgument "originator_to_header_2: transport_id must be 16 bytes")
  let newRaw ← packHeader2 (toHeader2Flags p.flags) p.hops transportId p.destinationHash
    p.context p.data
  fromWireBytes newRaw

def replaceTransportId (p : Packet) (newTransportId : Bytes) : Except Exn Packet := do
  if p.headerType ≠ .header2 then
    throw (.invalidArgument "replace_transport_id: source must be HEADER_2")
  if newTransportId.length ≠ transportIdLen then
    throw (.invalidArgument "replace_transport_id: transport_id must be 16 bytes")
  let newRaw ← packHeader2 p.flags p.hops newTransportId p.destinationHash p.context p.data
  fromWireBytes newRaw

def stripTransportIdToHeader1 (p : Packet) : Except Exn Packet := do
  if p.headerType ≠ .header2 then
    throw (.invalidArgument "strip_transport_id_to_header_1: source must be HEADER_2")
  let newRaw ← packHeader1 (toHeader1Flags p.flags) p.hops p.destinationHash p.context p.data
  fromWireBytes newRaw

/-- What `originator_to_header_2` builds when it does not throw. -/
def asHeader2 (p : Packet) (transportId : Bytes) (ht : transportId.length = transportIdLen) :
    Packet :=
  ofFields (toHeader2Flags p.flags) p.hops transportId p.destinationHash p.context p.data
    (ifac_toHeader2Flags _) (by rw [if_pos (headerTypeOf_toHeader2Flags _), ht])
    p.destinationHash_length

/-- What `replace_transport_id` builds when it does not throw. -/
def withTransportId (p : Packet) (h2 : p.headerType = .header2) (transportId : Bytes)
    (ht : transportId.length = transportIdLen) : Packet :=
  ofFields p.flags p.hops transportId p.destinationHash p.context p.data p.ifac_clear
    (by rw [if_pos (show headerTypeOf p.flags = .header2 from h2), ht]) p.destinationHash_length

/-- What `strip_transport_id_to_header_1` builds when it does not throw. -/
def asHeader1 (p : Packet) : Packet :=
  ofFields (toHeader1Flags p.flags) p.hops [] p.destinationHash p.context p.data
    (ifac_toHeader1Flags _) (by simp [headerTypeOf_toHeader1Flags]) p.destinationHash_length

theorem originatorToHeader2_eq {p : Packet} {transportId : Bytes} (h1 : p.headerType = .header1)
    (ht : transportId.length = transportIdLen) :
    p.originatorToHeader2 transportId = .ok (p.asHeader2 transportId ht) := by
  have hd := p.destinationHash_length
  simp only [originatorToHeader2, packHeader2, h1, ht, hd, ne_eq, not_true_eq_false, ↓reduceIte]
  exact fromWireBytes_eq_ok_iff.mpr (by simp [asHeader2, ofFields])

theorem replaceTransportId_eq {p : Packet} {transportId : Bytes} (h2 : p.headerType = .header2)
    (ht : transportId.length = transportIdLen) :
    p.replaceTransportId transportId = .ok (p.withTransportId h2 transportId ht) := by
  have hd := p.destinationHash_length
  simp only [replaceTransportId, packHeader2, h2, ht, hd, ne_eq, not_true_eq_false, ↓reduceIte]
  exact fromWireBytes_eq_ok_iff.mpr (by simp [withTransportId, ofFields])

theorem stripTransportIdToHeader1_eq {p : Packet} (h2 : p.headerType = .header2) :
    p.stripTransportIdToHeader1 = .ok p.asHeader1 := by
  have hd := p.destinationHash_length
  simp only [stripTransportIdToHeader1, packHeader1, h2, hd, ne_eq, not_true_eq_false, ↓reduceIte]
  exact fromWireBytes_eq_ok_iff.mpr (by simp [asHeader1, ofFields])

/-! ### The hashable part -/

/-- `hashable_part`: everything a relay cannot rewrite. -/
def hashablePart (p : Packet) : Bytes :=
  let n := if p.headerType = .header1 then 2 else 18
  [p.flags &&& 0x0F] ++ (if p.wireBytes.length > n then p.wireBytes.sliceFrom n else [])

theorem hashablePart_eq (p : Packet) :
    p.hashablePart = (p.flags &&& lowNibbleMask) :: (p.destinationHash ++ p.context :: p.data) := by
  have hlen := p.length_wireBytes
  have htid := p.transportId_length
  have hdrop : p.wireBytes.drop 2 =
      p.transportId ++ (p.destinationHash ++ p.context :: p.data) := by
    rw [p.wireBytes_eq]; rfl
  unfold hashablePart headerType
  cases h : headerTypeOf p.flags with
  | header1 =>
    have hnil : p.transportId = [] := List.length_eq_zero_iff.mp (by simpa [h] using htid)
    rw [hnil, List.nil_append] at hdrop
    simp only [↓reduceIte, Bytes.sliceFrom, hdrop]
    rw [if_pos (by omega)]; rfl
  | header2 =>
    have htid' : p.transportId.length = 16 := by simpa [h, transportIdLen] using htid
    have hd18 : p.wireBytes.drop 18 = p.destinationHash ++ p.context :: p.data := by
      rw [show (18 : Nat) = 2 + 16 from rfl, ← List.drop_drop, hdrop, ← htid', List.drop_left]
    simp only [reduceCtorEq, ↓reduceIte, Bytes.sliceFrom, hd18]
    rw [if_pos (by omega)]; rfl

/-- The hashable part determines, and is determined by, the fields no relay rewrites. -/
theorem hashablePart_eq_iff {p q : Packet} :
    p.hashablePart = q.hashablePart ↔ p.flags &&& lowNibbleMask = q.flags &&& lowNibbleMask ∧
      p.destinationHash = q.destinationHash ∧ p.context = q.context ∧ p.data = q.data := by
  rw [hashablePart_eq, hashablePart_eq]
  constructor
  · intro h
    obtain ⟨hf, h⟩ := List.cons.inj h
    obtain ⟨hd, h⟩ := List.append_inj h
      (p.destinationHash_length.trans q.destinationHash_length.symm)
    exact ⟨hf, hd, List.cons.inj h⟩
  · rintro ⟨hf, hd, hc, hb⟩
    rw [hf, hd, hc, hb]

end Packet
end Reticulum
