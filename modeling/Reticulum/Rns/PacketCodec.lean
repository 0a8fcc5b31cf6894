import Reticulum.Rns.Packet

/-!
# The packet codec

Which wires parse, and that packing and parsing undo each other in both layouts. Bits 7 and 6 of
the flags byte are the two that `from_wire_bytes` looks at.
-/

namespace Reticulum

/-- Packing the fields of a packet in the layout that bit 6 of its flags selects. -/
def Packet.repack (p : Packet) : Except Exn Bytes :=
  if p.flags.toNat.testBit 6 then
    Packet.packHeader2 p.flags p.hops p.transportId p.destinationHash p.context p.data
  else Packet.packHeader1 p.flags p.hops p.destinationHash p.context p.data

theorem ifac_eq_zero_iff : ∀ f : UInt8, f &&& ifacFlagBit = 0 ↔ f.toNat.testBit 7 = false :=
  forall_byte (by decide +kernel)

theorem headerTypeOf_eq_header2_iff :
    ∀ f : UInt8, headerTypeOf f = .header2 ↔ f.toNat.testBit 6 = true :=
  forall_byte (by decide +kernel)

namespace Packet

theorem fromWireBytes_isOk_iff (raw : Bytes) :
    (∃ p, fromWireBytes raw = .ok p) ↔ 19 ≤ raw.length ∧
      (raw.byteAt 0).toNat.testBit 7 = false ∧
      ((raw.byteAt 0).toNat.testBit 6 = true → 35 ≤ raw.length) := by
  rw [← ifac_eq_zero_iff, ← headerTypeOf_eq_header2_iff]
  constructor
  · rintro ⟨p, hp⟩
    have hwire := wireBytes_of_fromWireBytes hp
    have hlen := p.length_wireBytes
    have hflags : raw.byteAt 0 = p.flags := by
      rw [← hwire, p.wireBytes_eq]
      rfl
    rw [hflags, ← hwire, hlen]
    refine ⟨by omega, p.ifac_clear, ?_⟩
    intro h2
    have htid := p.transportId_length
    rw [if_pos h2] at htid
    simp only [transportIdLen] at htid
    omega
  · rintro ⟨hmin, hifac, hlong⟩
    unfold fromWireBytes
    rw [dif_neg (by simp only [header1MinLen]; omega), dif_neg (not_not.mpr hifac)]
    by_cases h2 : headerTypeOf (raw.byteAt 0) = .header2
    · have hlen := hlong h2
      rw [dif_pos h2, dif_neg (by simp only [header2MinLen]; omega)]
      exact ⟨_, rfl⟩
    · rw [dif_neg h2]
      exact ⟨_, rfl⟩

theorem packHeader1_eq {flags hops context : UInt8} {dest body : Bytes}
    (hd : dest.length = destHashLen) : packHeader1 flags hops dest context body =
      .ok (flags :: hops :: ([] ++ (dest ++ context :: body))) := by
  rw [packHeader1, if_neg (not_not.mpr hd)]
  simp

theorem packHeader2_eq {flags hops context : UInt8} {tid dest body : Bytes}
    (ht : tid.length = transportIdLen) (hd : dest.length = destHashLen) :
    packHeader2 flags hops tid dest context body =
      .ok (flags :: hops :: (tid ++ (dest ++ context :: body))) := by
  rw [packHeader2, if_neg (not_not.mpr ht), if_neg (not_not.mpr hd)]
  simp

theorem repack_eq (p : Packet) : p.repack = .ok p.wireBytes := by
  have htid := p.transportId_length
  rw [p.wireBytes_eq, repack]
  by_cases h2 : headerTypeOf p.flags = .header2
  · rw [if_pos h2] at htid
    rw [if_pos ((headerTypeOf_eq_header2_iff _).mp h2)]
    exact packHeader2_eq htid p.destinationHash_length
  · rw [if_neg h2] at htid
    rw [if_neg (fun h => h2 ((headerTypeOf_eq_header2_iff _).mpr h)),
      List.length_eq_zero_iff.mp htid]
    exact packHeader1_eq p.destinationHash_length

/-- Parsing gives back what was packed, whichever the layout. -/
theorem fromWireBytes_ofFields {flags hops context : UInt8} {tid dest body : Bytes}
    (hi : flags &&& ifacFlagBit = 0)
    (ht : tid.length = if headerTypeOf flags = .header2 then transportIdLen else 0)
    (hd : dest.length = destHashLen) :
    fromWireBytes (flags :: hops :: (tid ++ (dest ++ context :: body))) =
      .ok (ofFields flags hops tid dest context body hi ht hd) :=
  fromWireBytes_eq_ok_iff.mpr rfl

theorem fromWireBytes_packHeader1 {flags hops context : UInt8} {dest body : Bytes}
    (h7 : flags.toNat.testBit 7 = false) (h6 : flags.toNat.testBit 6 = false)
    (hd : dest.length = 16) : ∃ wire p, packHeader1 flags hops dest context body = .ok wire ∧
      fromWireBytes wire = .ok p ∧ p.flags = flags ∧ p.hops = hops ∧ p.transportId = [] ∧
      p.destinationHash = dest ∧ p.context = context ∧ p.data = body := by
  have h1 : headerTypeOf flags ≠ .header2 := by
    intro h
    rw [(headerTypeOf_eq_header2_iff flags).mp h] at h6
    cases h6
  have hparse := @fromWireBytes_ofFields flags hops context [] dest body
    ((ifac_eq_zero_iff flags).mpr h7) (by rw [if_neg h1]; rfl) hd
  exact ⟨_, _, packHeader1_eq hd, hparse, rfl, rfl, rfl, rfl, rfl, rfl⟩

theorem fromWireBytes_packHeader2 {flags hops context : UInt8} {tid dest body : Bytes}
    (h7 : flags.toNat.testBit 7 = false) (h6 : flags.toNat.testBit 6 = true)
    (ht : tid.length = 16) (hd : dest.length = 16) :
    ∃ wire p, packHeader2 flags hops tid dest context body = .ok wire ∧
      fromWireBytes wire = .ok p ∧ p.flags = flags ∧ p.hops = hops ∧ p.transportId = tid ∧
      p.destinationHash = dest ∧ p.context = context ∧ p.data = body := by
  have h2 : headerTypeOf flags = .header2 := (headerTypeOf_eq_header2_iff flags).mpr h6
  have hparse := @fromWireBytes_ofFields flags hops context tid dest body
    ((ifac_eq_zero_iff flags).mpr h7) (by rw [if_pos h2]; exact ht) hd
  exact ⟨_, _, packHeader2_eq ht hd, hparse, rfl, rfl, rfl, rfl, rfl, rfl⟩

/-- The codec is a bijection between packets and the wires it accepts, and these are given by their
length and two bits. -/
theorem codec_bijective :
    (∀ raw, (∃ p, fromWireBytes raw = .ok p) ↔ 19 ≤ raw.length ∧
      (raw.byteAt 0).toNat.testBit 7 = false ∧
      ((raw.byteAt 0).toNat.testBit 6 = true → 35 ≤ raw.length)) ∧
    (∀ raw p, fromWireBytes raw = .ok p →
      (if (raw.byteAt 0).toNat.testBit 6 then
        packHeader2 p.flags p.hops p.transportId p.destinationHash p.context p.data
      else packHeader1 p.flags p.hops p.destinationHash p.context p.data) = .ok raw) ∧
    (∀ (flags hops context : UInt8) (dest body : Bytes), flags.toNat.testBit 7 = false →
      flags.toNat.testBit 6 = false → dest.length = 16 →
      ∃ wire p, packHeader1 flags hops dest context body = .ok wire ∧
        fromWireBytes wire = .ok p ∧ p.flags = flags ∧ p.hops = hops ∧ p.transportId = [] ∧
        p.destinationHash = dest ∧ p.context = context ∧ p.data = body) ∧
    ∀ (flags hops context : UInt8) (tid dest body : Bytes), flags.toNat.testBit 7 = false →
      flags.toNat.testBit 6 = true → tid.length = 16 → dest.length = 16 →
      ∃ wire p, packHeader2 flags hops tid dest context body = .ok wire ∧
        fromWireBytes wire = .ok p ∧ p.flags = flags ∧ p.hops = hops ∧ p.transportId = tid ∧
        p.destinationHash = dest ∧ p.context = context ∧ p.data = body := by
  refine ⟨fromWireBytes_isOk_iff, ?_, ?_, ?_⟩
  · intro raw p hp
    have hwire := wireBytes_of_fromWireBytes hp
    have hflags : raw.byteAt 0 = p.flags := by
      rw [← hwire, p.wireBytes_eq]
      rfl
    have hback := p.repack_eq
    rw [repack, hwire] at hback
    rw [hflags]
    exact hback
  · intro flags hops context dest body h7 h6 hd
    exact fromWireBytes_packHeader1 h7 h6 hd
  · intro flags hops context tid dest body h7 h6 ht hd
    exact fromWireBytes_packHeader2 h7 h6 ht hd

/-- The longest wire that is no HEADER_2 packet, and the shortest that is one. -/
theorem codec_bijective_bounds :
    (¬∃ p, fromWireBytes (0x50 :: List.replicate 33 7) = .ok p) ∧
    ∃ p, fromWireBytes (0x50 :: List.replicate 34 7) = .ok p ∧
      packHeader2 p.flags p.hops p.transportId p.destinationHash p.context p.data =
        .ok (0x50 :: List.replicate 34 7) := by
  obtain ⟨haccepts, hpacks, -, -⟩ := codec_bijective
  refine ⟨fun h => ?_, ?_⟩
  · obtain ⟨-, -, hlong⟩ := (haccepts _).mp h
    have hlen := hlong (by decide)
    exact absurd hlen (by decide)
  · obtain ⟨p, hp⟩ := (haccepts (0x50 :: List.replicate 34 7)).mpr ⟨by decide, by decide, by decide⟩
    exact ⟨p, hp, hpacks _ p hp⟩

end Packet
end Reticulum
