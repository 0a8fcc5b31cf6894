import Reticulum.Rns.Destination

/-!
# An announce is accepted as it was built

`Destination::build_announce` lays out exactly the fields that `parse_announce_body` slices, and
signs exactly the bytes that `validate_announce` rebuilds from them.
-/

namespace Reticulum

variable [CryptoLib]

def VerifiesOwn : Prop :=
  ∀ priv msg : Bytes, CryptoLib.verify (CryptoLib.sign priv (CryptoLib.derivePublicKey priv).toList
    msg).toList (CryptoLib.derivePublicKey priv).toList msg = true

theorem VerifiesOwn.ed25519Verify (h : VerifiesOwn) {priv msg sig : Bytes}
    (hs : ed25519Sign priv msg = .ok sig) :
    ed25519Verify (CryptoLib.derivePublicKey priv).toList sig msg = true := by
  have hlen := length_of_ed25519Sign hs
  unfold ed25519Sign at hs
  split at hs
  · cases hs
  · cases hs
    unfold Reticulum.ed25519Verify
    rw [if_neg (by simp)]
    exact h priv msg

/-- The key pair of an identity belongs together. -/
structure Identity.Genuine (i : Identity) : Prop where
  edPub : i.publicKey.slice 32 32 = (CryptoLib.derivePublicKey (i.privateKey.slice 32 32)).toList
  identityHash : i.identityHash = identityHashOf i.publicKey

theorem Identity.genuine_of_fromPrivateBytes {priv : Bytes} {i : Identity}
    (h : fromPrivateBytes priv = .ok i) : i.Genuine := by
  unfold fromPrivateBytes at h
  split at h
  · cases h
  split at h
  · cases h
  rename_i xPub hx
  split at h
  · cases h
  rename_i ePub he
  cases h
  refine ⟨?_, rfl⟩
  have hxlen := length_of_x25519PublicFromPrivate hx
  have helen := length_of_ed25519PublicFromPrivate he
  unfold ed25519PublicFromPrivate at he
  split at he
  · cases he
  · cases he
    rw [Bytes.slice_append_right _ _ hxlen, List.take_of_length_le (by simp)]

theorem Identity.privateKey_of_fromPrivateBytes {priv : Bytes} {i : Identity}
    (h : fromPrivateBytes priv = .ok i) : i.privateKey.length = privKeyLen := by
  unfold fromPrivateBytes at h
  split at h
  · cases h
  split at h
  · cases h
  split at h
  · cases h
  cases h
  exact not_not.mp ‹_›

theorem Identity.length_destHashOf (nameHash identityHash : Bytes) :
    (destHashOf nameHash identityHash).length = destHashLen := by
  simp [destHashOf, sha256, Bytes.slice, destHashLen]

namespace Destination

structure Genuine (d : Destination) : Prop where
  identity : d.identity.Genuine
  nameHash_length : d.nameHash.length = nameHashLen
  destinationHash : d.destinationHash = Identity.destHashOf d.nameHash d.identity.identityHash

theorem genuine_of_new {i : Identity} {appName : Bytes} {d : Destination} (hi : i.Genuine)
    (h : Destination.new i appName = .ok d) : d.Genuine := by
  obtain ⟨destHash, hdest, h⟩ := bind_eq_ok h
  cases h
  unfold Identity.destinationHashFor at hdest
  split at hdest
  · cases hdest
  · cases hdest
    exact ⟨hi, Identity.length_nameHash _, rfl⟩

def validated (d : Destination) (randomHash ratchetPub appData : Bytes) (pathResponse : Bool) :
    ValidatedAnnounce where
  destinationHash := d.destinationHash
  publicKey := d.identity.publicKey
  nameHash := d.nameHash
  randomHash := randomHash
  ratchetPub := ratchetPub
  appData := appData
  isPathResponse := pathResponse

omit [CryptoLib] in
theorem parseAnnounceBody_append {pub nameHash randomHash ratchetPub signature : Bytes}
    (appData : Bytes) (hp : pub.length = 64) (hn : nameHash.length = 10)
    (hr : randomHash.length = 10) (hs : signature.length = 64) {contextFlag : Bool}
    (hrat : ratchetPub.length = if contextFlag then 32 else 0) :
    parseAnnounceBody (pub ++ (nameHash ++ (randomHash ++ (ratchetPub ++ (signature ++ appData)))))
      contextFlag = .ok ⟨pub, nameHash, randomHash, ratchetPub, signature, appData⟩ := by
  generalize h₄ : signature ++ appData = t₄
  generalize h₃ : ratchetPub ++ t₄ = t₃
  generalize h₂ : randomHash ++ t₃ = t₂
  generalize h₁ : nameHash ++ t₂ = t₁
  generalize h₀ : pub ++ t₁ = body
  have hlen : announceFixedLen contextFlag ≤ body.length := by
    subst h₀ h₁ h₂ h₃ h₄
    simp only [announceFixedLen, ← hrat, List.length_append]
    omega
  have d₁ : body.drop 64 = t₁ := h₀ ▸ List.drop_left' hp
  have d₂ : body.drop 74 = t₂ := by
    rw [show (74 : Nat) = 64 + 10 from rfl, ← List.drop_drop, d₁, ← h₁, List.drop_left' hn]
  have d₃ : body.drop 84 = t₃ := by
    rw [show (84 : Nat) = 74 + 10 from rfl, ← List.drop_drop, d₂, ← h₂, List.drop_left' hr]
  have d₄ : body.drop (84 + if contextFlag then 32 else 0) = t₄ := by
    rw [← List.drop_drop, d₃, ← h₃, List.drop_left' hrat]
  have d₅ : body.drop (84 + (if contextFlag then 32 else 0) + 64) = appData := by
    rw [← List.drop_drop, d₄, ← h₄, List.drop_left' hs]
  unfold parseAnnounceBody
  rw [if_neg (Nat.not_lt.mpr hlen)]
  simp only [Bytes.slice, Bytes.sliceFrom, d₁, d₂, d₃, d₄, d₅, List.drop_zero]
  rw [← h₀, ← h₁, ← h₂, ← h₄, List.take_left' hp, List.take_left' hn, List.take_left' hr,
    List.take_left' hs]
  cases contextFlag with
  | false =>
    obtain rfl := List.length_eq_zero_iff.mp hrat
    rfl
  | true =>
    simp only [↓reduceIte] at hrat ⊢
    rw [← h₃, List.take_left' hrat]

theorem validateAnnounce_of_parse {p : Packet} {body : AnnounceBody}
    (ht : p.packetType = .announce) (hdt : p.destinationType = .single)
    (hparse : parseAnnounceBody p.data p.contextFlag = .ok body)
    (hver : ed25519Verify (body.publicKey.slice 32 32) body.signature
      (announceSignedData p.destinationHash body) = true)
    (hdest : Identity.destHashOf body.nameHash (identityHashOf body.publicKey) =
      p.destinationHash) :
    Identity.validateAnnounce p = some {
      destinationHash := p.destinationHash
      publicKey := body.publicKey
      nameHash := body.nameHash
      randomHash := body.randomHash
      ratchetPub := body.ratchetPub
      appData := body.appData
      isPathResponse := p.context == contextPathResponse } := by
  simp only [Identity.validateAnnounce, ht, hdt, hparse, hver, hdest, ne_eq, not_true_eq_false,
    ↓reduceIte, Bool.not_true, Bool.false_eq_true]

def announceFlags (ratchetPub : Bytes) : UInt8 := if ratchetPub ≠ [] then 0x01 ||| 0x20 else 0x01

omit [CryptoLib] in
theorem announceFlags_cases (ratchetPub : Bytes) :
    announceFlags ratchetPub &&& ifacFlagBit = 0 ∧
      headerTypeOf (announceFlags ratchetPub) = .header1 ∧
      packetTypeOf (announceFlags ratchetPub) = .announce ∧
      destinationTypeOf (announceFlags ratchetPub) = .single ∧
      contextFlagOf (announceFlags ratchetPub) = decide (ratchetPub ≠ []) := by
  unfold announceFlags
  by_cases h : ratchetPub = [] <;> simp only [h, ne_eq, not_true_eq_false, not_false_eq_true,
    ↓reduceIte, decide_true, decide_false] <;> decide

theorem buildAnnounce_eq_ok {d : Destination} {randomPrefix appData ratchetPub wire : Bytes}
    {timestampSecs : Nat} {pathResponse : Bool}
    (h : d.buildAnnounce randomPrefix timestampSecs appData ratchetPub pathResponse = .ok wire) :
    randomPrefix.length = 5 ∧ (ratchetPub = [] ∨ ratchetPub.length = 32) ∧
      d.destinationHash.length = destHashLen ∧ ∃ signature,
      ed25519Sign (d.identity.privateKey.slice 32 32) (d.destinationHash ++ d.identity.publicKey ++
        d.nameHash ++ announceRandomHash randomPrefix timestampSecs ++ ratchetPub ++ appData) =
        .ok signature ∧
      wire = [announceFlags ratchetPub] ++ [0] ++ d.destinationHash ++
        [if pathResponse then contextPathResponse else contextNone] ++
        (d.identity.publicKey ++ d.nameHash ++ announceRandomHash randomPrefix timestampSecs ++
          ratchetPub ++ signature ++ appData) := by
  unfold buildAnnounce at h
  by_cases hrandom : randomPrefix.length = 5
  swap
  · rw [if_pos hrandom] at h; cases h
  by_cases hratchet : ratchetPub ≠ [] ∧ ratchetPub.length ≠ 32
  · rw [if_neg (not_not.mpr hrandom)] at h
    simp only [hratchet, ne_eq, not_false_eq_true, and_self, ↓reduceIte] at h
    cases h
  by_cases hpriv : d.identity.privateKey.length = privKeyLen
  swap
  · simp [hrandom, hratchet, hpriv] at h; cases h
  simp only [hrandom, hratchet, hpriv, ne_eq, not_true_eq_false, ↓reduceIte] at h
  obtain ⟨signature, hsig, h⟩ := bind_eq_ok h
  unfold Packet.packHeader1 at h
  split at h
  · cases h
  · cases h
    exact ⟨hrandom, by tauto, by tauto, signature, hsig, rfl⟩

/-- Nothing but the lengths of its arguments can stop an announce. -/
theorem exists_buildAnnounce {d : Destination} {randomPrefix appData ratchetPub : Bytes}
    {timestampSecs : Nat} {pathResponse : Bool} (hpriv : d.identity.privateKey.length = privKeyLen)
    (hdest : d.destinationHash.length = destHashLen) (hrandom : randomPrefix.length = 5)
    (hratchet : ratchetPub = [] ∨ ratchetPub.length = 32) : ∃ wire,
      d.buildAnnounce randomPrefix timestampSecs appData ratchetPub pathResponse = .ok wire := by
  have hratchet' : ¬ (ratchetPub ≠ [] ∧ ratchetPub.length ≠ 32) := by tauto
  have hslice : (d.identity.privateKey.slice 32 32).length = 32 :=
    Bytes.length_slice_of_le (by rw [hpriv]; decide)
  unfold buildAnnounce
  rw [if_neg (not_not.mpr hrandom), if_neg hratchet', if_neg (not_not.mpr hpriv)]
  simp only [ed25519Sign, Packet.packHeader1, hslice, hdest, ne_eq, not_true_eq_false, ↓reduceIte]
  exact ⟨_, rfl⟩

/-- Every announce a destination builds parses as a HEADER_1 packet fresh from its origin, and is
validated as what it was built from. -/
theorem validateAnnounce_of_buildAnnounce (hv : VerifiesOwn) {d : Destination} (hd : d.Genuine)
    {randomPrefix appData ratchetPub wire : Bytes} {timestampSecs : Nat} {pathResponse : Bool}
    (h : d.buildAnnounce randomPrefix timestampSecs appData ratchetPub pathResponse = .ok wire) :
    ∃ p : Packet, p.wireBytes = wire ∧ p.headerType = .header1 ∧ p.hops = 0 ∧
      p.packetType = .announce ∧ p.destinationHash = d.destinationHash ∧
      p.context = (if pathResponse then contextPathResponse else contextNone) ∧
      Identity.validateAnnounce p = some (d.validated
        (announceRandomHash randomPrefix timestampSecs) ratchetPub appData pathResponse) := by
  obtain ⟨hrandom, hratchet, hdest, signature, hsig, rfl⟩ := buildAnnounce_eq_ok h
  obtain ⟨hifac, hheader, htype, hdt, hflag⟩ := announceFlags_cases ratchetPub
  have hrat : ratchetPub.length = if decide (ratchetPub ≠ []) then 32 else 0 := by
    rcases hratchet with rfl | hlen
    · rfl
    · rw [hlen, if_pos (decide_eq_true (by rintro rfl; cases hlen))]
  have hparse := parseAnnounceBody_append appData d.identity.publicKey_length hd.nameHash_length
    (length_announceRandomHash hrandom timestampSecs) (length_of_ed25519Sign hsig) hrat
  have hver := hv.ed25519Verify hsig
  rw [← hd.identity.edPub] at hver
  obtain ⟨p, hf, hhops, htid, hdh, hctx, hdata⟩ : ∃ p : Packet, p.flags = announceFlags ratchetPub ∧
      p.hops = 0 ∧ p.transportId = [] ∧ p.destinationHash = d.destinationHash ∧
      p.context = (if pathResponse then contextPathResponse else contextNone) ∧
      p.data = d.identity.publicKey ++ (d.nameHash ++
        (announceRandomHash randomPrefix timestampSecs ++
          (ratchetPub ++ (signature ++ appData)))) :=
    ⟨.ofFields (announceFlags ratchetPub) 0 [] d.destinationHash _ _ hifac (by rw [hheader]; rfl)
      hdest, rfl, rfl, rfl, rfl, rfl, rfl⟩
  have ht : p.packetType = .announce := by rw [Packet.packetType, hf, htype]
  refine ⟨p, ?_, by rw [Packet.headerType, hf, hheader], hhops, ht, hdh, hctx, ?_⟩
  · rw [p.wireBytes_eq, hf, hhops, htid, hdh, hctx, hdata]
    simp
  · rw [validateAnnounce_of_parse ht (by rw [Packet.destinationType, hf, hdt])
      (by rw [hdata, Packet.contextFlag, hf, hflag, hparse]) (hdh ▸ hver)
      (by rw [hdh, hd.destinationHash, hd.identity.identityHash]), hdh, hctx]
    cases pathResponse <;> rfl

end Destination
end Reticulum
