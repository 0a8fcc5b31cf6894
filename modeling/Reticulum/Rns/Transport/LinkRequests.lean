import Reticulum.Lib.Endian
import Reticulum.Rns.Transport.LinkLine
import Reticulum.Rns.Transport.Rewrites

/-!
# Link requests on their way

A relay turns the header of a link request like that of any packet it relays, and of the body it
writes at most the low 21 bits of the signalling. The link id covers neither.
-/

namespace Reticulum
open Endian

/-- `new` is `old` but for the 21 bits of the MTU at its end, which come down to `hwMtuBytes`. -/
structure ClampedTo (hwMtuBytes : Nat) (old new : Bytes) : Prop where
  length : new.length = old.length
  front : new.take (old.length - linkMtuSize) = old.take (old.length - linkMtuSize)
  mode : ofBe (new.drop (old.length - linkMtuSize)) / 2 ^ 21 =
    ofBe (old.drop (old.length - linkMtuSize)) / 2 ^ 21
  mtu : ofBe (new.drop (old.length - linkMtuSize)) % 2 ^ 21 =
    min (ofBe (old.drop (old.length - linkMtuSize)) % 2 ^ 21) hwMtuBytes

theorem ClampedTo.append {hwMtuBytes : Nat} {old new : Bytes} (h : ClampedTo hwMtuBytes old new)
    (hdr : Bytes) (hlen : linkMtuSize ≤ old.length) :
    ClampedTo hwMtuBytes (hdr ++ old) (hdr ++ new) := by
  obtain ⟨hl, hfront, hmode, hmtu⟩ := h
  have hoff : (hdr ++ old).length - linkMtuSize = hdr.length + (old.length - linkMtuSize) := by
    rw [List.length_append]
    omega
  constructor
  · rw [List.length_append, List.length_append, hl]
  · rw [hoff, List.take_length_add_append, List.take_length_add_append, hfront]
  · rw [hoff, List.drop_length_add_append, List.drop_length_add_append, hmode]
  · rw [hoff, List.drop_length_add_append, List.drop_length_add_append, hmtu]

theorem or_shifted (a b c : UInt8) :
    ((a.toNat <<< 16) ||| (b.toNat <<< 8)) ||| c.toNat = ofBe [a, b, c] := by
  have hb := b.toNat_lt
  have hc := c.toNat_lt
  have hlow : b.toNat <<< 8 ||| c.toNat = b.toNat * 256 + c.toNat := shiftLeft_or hc b.toNat
  rw [Nat.or_assoc, hlow, shiftLeft_or (by omega)]
  simp [ofBe]
  omega

/-- The first byte of the signalling: its mode, and the top of the MTU that replaces its own. -/
theorem toNat_modeBits (a : UInt8) {m : Nat} (hm : m < 2 ^ 21) :
    (a &&& (0xE0 : UInt8) ||| UInt8.ofNat ((m >>> 16) &&& 0x1F)).toNat =
      a.toNat / 32 * 32 + m / 65536 := by
  have htop : m >>> 16 < 2 ^ 5 := by
    rw [Nat.shiftRight_eq_div_pow]
    omega
  have hmode : (a &&& 0xE0).toNat = 2 ^ 5 * (a.toNat / 32) := by
    revert a
    exact forall_byte (by decide +kernel)
  have hfive : (m >>> 16) &&& 0x1F = m >>> 16 := by
    rw [show (0x1F : Nat) = 2 ^ 5 - 1 from rfl, Nat.and_two_pow_sub_one_eq_mod]
    exact Nat.mod_eq_of_lt htop
  have hsmall : (UInt8.ofNat (m >>> 16)).toNat = m >>> 16 := by
    rw [UInt8.toNat_ofNat']
    omega
  rw [hfive, UInt8.toNat_or, hmode, hsmall, ← Nat.two_pow_add_eq_or_of_lt htop,
    Nat.shiftRight_eq_div_pow]
  omega

/-- The signalling that replaces one of a larger MTU. -/
theorem ofBe_clamped (a b c : UInt8) {m : Nat} (hm : m < 2 ^ 21) :
    ofBe [a &&& (0xE0 : UInt8) ||| UInt8.ofNat ((m >>> 16) &&& 0x1F),
      UInt8.ofNat ((m >>> 8) &&& 0xFF), UInt8.ofNat (m &&& 0xFF)] =
      ofBe [a, b, c] / 2 ^ 21 * 2 ^ 21 + m := by
  have htop := toNat_modeBits a hm
  have hbyte : ∀ n : Nat, (UInt8.ofNat (n &&& 0xFF)).toNat = n % 256 := by
    intro n
    rw [show (0xFF : Nat) = 2 ^ 8 - 1 from rfl, Nat.and_two_pow_sub_one_eq_mod, UInt8.toNat_ofNat',
      Nat.mod_mod]
  have hb := b.toNat_lt
  have hc := c.toNat_lt
  simp only [ofBe, List.foldl_cons, List.foldl_nil]
  rw [htop, hbyte, hbyte, Nat.shiftRight_eq_div_pow]
  omega

theorem clampSignalling_clampedTo {data : Bytes} (h : data.length = ecPubSize + linkMtuSize)
    (hwMtuBytes : Nat) : ClampedTo hwMtuBytes data (clampSignalling data hwMtuBytes) := by
  have hoff : data.length - linkMtuSize = ecPubSize := by omega
  obtain ⟨a, b, c, hsig⟩ : ∃ a b c, data.drop ecPubSize = [a, b, c] :=
    List.length_eq_three.mp (by rw [List.length_drop, h]; rfl)
  have hbyte : ∀ i, data.byteAt (ecPubSize + i) = Bytes.byteAt [a, b, c] i := by
    intro i
    rw [← hsig]
    simp [Bytes.byteAt, List.getD_eq_getElem?_getD]
  have hmode : data.byteAt ecPubSize = a := hbyte 0
  have hmtu : signallingAt data ecPubSize &&& 0x1FFFFF = ofBe [a, b, c] % 2 ^ 21 := by
    rw [signallingAt, hmode, hbyte 1, hbyte 2]
    exact (Nat.and_two_pow_sub_one_eq_mod _ 21).trans (congrArg (· % 2 ^ 21) (or_shifted a b c))
  have hdrop : (clampSignalling data hwMtuBytes).drop ecPubSize =
      if ofBe [a, b, c] % 2 ^ 21 ≤ hwMtuBytes then [a, b, c]
      else [a &&& (0xE0 : UInt8) ||| UInt8.ofNat ((hwMtuBytes >>> 16) &&& 0x1F),
        UInt8.ofNat ((hwMtuBytes >>> 8) &&& 0xFF), UInt8.ofNat (hwMtuBytes &&& 0xFF)] := by
    rw [clampSignalling, if_neg (not_not.mpr h), hmtu]
    split
    · rw [hsig]
    · have hfits : hwMtuBytes &&& 0x1FFFFF = hwMtuBytes :=
        (Nat.and_two_pow_sub_one_eq_mod _ 21).trans (Nat.mod_eq_of_lt (by omega))
      have hset : ∀ (l : Bytes) i x,
          (l.set (ecPubSize + i) x).drop ecPubSize = (l.drop ecPubSize).set i x := by
        intro l i x
        simp [List.drop_set]
      have hset0 : ∀ (l : Bytes) x, (l.set ecPubSize x).drop ecPubSize =
          (l.drop ecPubSize).set 0 x := fun l x => hset l 0 x
      rw [hmode, hfits, hset, hset, hset0, hsig]
      rfl
  refine ⟨length_clampSignalling _ _, ?_, ?_, ?_⟩
  · rw [hoff, take_clampSignalling]
  all_goals
    rw [hoff, hsig, hdrop]
    split
  · rfl
  · rw [ofBe_clamped a b c (by omega)]
    omega
  · omega
  · rw [ofBe_clamped a b c (by omega)]
    omega

/-! ### Forwarding -/

theorem Packet.withData_wireBytes (p : Packet) : ∃ hdr : Bytes,
    p.wireBytes = hdr ++ p.data ∧ ∀ data, (p.withData data).wireBytes = hdr ++ data := by
  refine ⟨p.flags :: p.hops :: (p.transportId ++ (p.destinationHash ++ [p.context])), ?_, ?_⟩
  · rw [p.wireBytes_eq]
    simp
  · intro data
    simp [withData, ofFields]

/-- The wire of a request after the clamp. -/
theorem maybeClampLrSignalling_clampedTo {p : Packet}
    (h : p.data.length = ecPubSize + linkMtuSize) (hwMtuBytes : Nat) :
    ClampedTo hwMtuBytes p.wireBytes (maybeClampLrSignalling p.wireBytes hwMtuBytes) := by
  obtain ⟨hdr, hp, hw⟩ := p.withData_wireBytes
  rw [maybeClampLrSignalling_wireBytes, Packet.clamped, hw, hp]
  exact (clampSignalling_clampedTo h hwMtuBytes).append hdr (by omega)

section
variable [CryptoLib]

/-- A relayed request asks for the link the request asked for. -/
theorem linkIdFromLrPacket_clamped {p q : Packet} (hpart : q.hashablePart = p.hashablePart)
    (hdata : q.data = p.data) (hwMtuBytes : Nat) :
    linkIdFromLrPacket (q.clamped hwMtuBytes) = linkIdFromLrPacket p := by
  rw [← linkIdFromLrPacket_congr hpart hdata]
  by_cases hlen : q.data.length = ecPubSize + linkMtuSize
  · exact (q.sameRequest_clamped hwMtuBytes).linkId (Or.inr hlen)
  · rw [Packet.clamped_of_length hlen]

namespace Transport

/-- A link request that this node relays goes out in the form of a relayed packet, but for the MTU
of its signalling, and the new entry is under the link id of what goes out. -/
theorem linkRequest_rewrites {t : Transport} {packet : Packet} {path : PathEntry}
    {outboundIf : IfaceId} (receivedOn : IfaceId) (nowMs : Nat)
    (h2 : packet.headerType = .header2) (hid : packet.transportId = t.localIdentity.identityHash)
    (hpath : t.paths.get packet.destinationHash = some path)
    (hout : path.receivingInterface = some outboundIf) (hhops : 1 ≤ path.hops)
    (hnext : 1 < path.hops → path.nextHop.length = transportIdLen) :
    ∃ t' form wire sent entry,
      t.handleLinkRequestForward receivedOn packet nowMs = .ok t' ∧
      (if path.hops > 1 then packet.replaceTransportId path.nextHop
        else packet.stripTransportIdToHeader1) = .ok form ∧
      t'.out = t.out ++ [.transmit .linkForward outboundIf wire] ∧
      (packet.data.length ≠ 67 → wire = form.wireBytes) ∧
      (packet.data.length = 67 →
        ClampedTo (t.iface outboundIf).hwMtuBytes form.wireBytes wire) ∧
      Packet.fromWireBytes wire = .ok sent ∧
      t'.linkTable = t.linkTable.put entry ∧ entry.linkId = linkIdFromLrPacket sent := by
  obtain ⟨form, hform, hroute, hpart, hdata⟩ : ∃ form,
      (if path.hops > 1 then packet.replaceTransportId path.nextHop
        else packet.stripTransportIdToHeader1) = .ok form ∧
      t.route packet = some (path, outboundIf, form) ∧
      form.hashablePart = packet.hashablePart ∧ form.data = packet.data := by
    simp only [route, dif_pos (And.intro h2 hid), hpath, Option.bind_some, relayOf, hout]
    by_cases hfar : path.hops > 1
    · have hq := Packet.replaceTransportId_eq h2 (hnext hfar)
      rw [if_pos hfar, if_pos hfar, dif_pos (hnext hfar)]
      exact ⟨_, hq, rfl, (Packet.Rewritten.replaceTransportId _ hq).hashablePart, rfl⟩
    · have hq := Packet.stripTransportIdToHeader1_eq h2
      rw [if_neg hfar, if_neg hfar, if_pos (UInt8.le_antisymm (UInt8.not_lt.mp hfar) hhops)]
      exact ⟨_, hq, rfl, (Packet.Rewritten.stripTransportIdToHeader1 hq).hashablePart, rfl⟩
  obtain ⟨s, hs⟩ := handleLinkRequestForward_of_route receivedOn nowMs hroute
  refine ⟨_, form, _, form.clamped (t.iface outboundIf).hwMtuBytes, _, hs, hform, rfl, ?_, ?_, ?_,
    rfl, (linkIdFromLrPacket_clamped hpart hdata _).symm⟩
  · intro hlen
    rw [maybeClampLrSignalling_wireBytes, Packet.clamped_of_length (by rw [hdata]; exact hlen)]
  · intro hlen
    exact maybeClampLrSignalling_clampedTo (by rw [hdata]; exact hlen) _
  · rw [maybeClampLrSignalling_wireBytes]
    exact Packet.fromWireBytes_wireBytes _

end Transport
end

open Vectors
attribute [local instance] lib

/-- A request to Alice through Bob that signals an MTU of 500 bytes. -/
def signallingRequest : Packet :=
  requestPacket.withData (List.replicate 64 0 ++ [0x20, 0x01, 0xf4])

/-- Bob, one hop from Alice over interfaces that carry 250 bytes. -/
def tightBob : Transport :=
  { Transport.new bob true fun _ => { cfg with hwMtuBytes := 250 } with
    paths := PathTable.empty.put aliceDest ⟨1000, [], 1, 1000000, [], some 1, []⟩ }

theorem linkRequest_rewrites_tight : ∃ t' wire,
    tightBob.handleLinkRequestForward 0 signallingRequest 2000 = .ok t' ∧
    t'.out = [.transmit .linkForward 1 wire] ∧
    ClampedTo 250 signallingRequest.asHeader1.wireBytes wire := by
  obtain ⟨t', form, wire, sent, entry, ht, hform, hout, -, hclamp, -⟩ :=
    @Transport.linkRequest_rewrites _ tightBob signallingRequest
      ⟨1000, [], 1, 1000000, [], some 1, []⟩ 1 0 2000 (by decide) rfl (by decide) rfl (by decide)
      (by decide)
  rw [if_neg (by decide), Packet.stripTransportIdToHeader1_eq (by decide)] at hform
  cases hform
  exact ⟨t', wire, ht, hout, hclamp (by decide)⟩

end Reticulum
