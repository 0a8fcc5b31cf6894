import Reticulum.Rlr.ConfigProtocol
import Reticulum.Rns.MsgpackElems

/-!
# What a `set_config` request says

The pairs of the request as a list of settings, and the loop of `apply_set_fields` as reading that
list and applying it: to its end, or up to the first pair that cannot be read.
-/

namespace Reticulum
open Msgpack

inductive IntField where
  | freqHz | bwHz | sf | cr | txpDbm | latUdeg | lonUdeg | altM
deriving DecidableEq

namespace IntField

def key : IntField → Bytes
  | freqHz => ascii "freq_hz"
  | bwHz => ascii "bw_hz"
  | sf => ascii "sf"
  | cr => ascii "cr"
  | txpDbm => ascii "txp_dbm"
  | latUdeg => ascii "lat_udeg"
  | lonUdeg => ascii "lon_udeg"
  | altM => ascii "alt_m"

def set : IntField → Int → Config → Config
  | freqHz, v, cfg => { cfg with freqHz := UInt32.ofInt v }
  | bwHz, v, cfg => { cfg with bwHz := UInt32.ofInt v }
  | sf, v, cfg => { cfg with sf := UInt8.ofInt v }
  | cr, v, cfg => { cfg with cr := UInt8.ofInt v }
  | txpDbm, v, cfg => { cfg with txpDbm := Int8.ofInt v }
  | latUdeg, v, cfg => { cfg with latitudeUdeg := Int32.ofInt v }
  | lonUdeg, v, cfg => { cfg with longitudeUdeg := Int32.ofInt v }
  | altM, v, cfg => { cfg with altitudeM := Int32.ofInt v }

end IntField

/-- A pair whose key the endpoint knows, with the value it reads. -/
inductive Setting where
  | int (f : IntField) (v : Int)
  | battMult (bits : UInt32)
  | displayName (s : Bytes)
deriving DecidableEq

def battMultKey : Bytes := ascii "batt_mult"
def displayNameKey : Bytes := ascii "display_name"

def Setting.apply (cfg : Config) : Setting → Config
  | .int f v => f.set v cfg
  | .battMult bits => { cfg with battMult := bits }
  | .displayName s => { cfg with displayName := ConfigProtocol.setName cfg.displayName s }

/-- Settings in order of appearance. -/
def applyAll (cfg : Config) (settings : List Setting) : Config := settings.foldl Setting.apply cfg

def KnownKey (key : Bytes) : Prop :=
  (∃ f : IntField, key = f.key) ∨ key = battMultKey ∨ key = displayNameKey

/-- From `r`, `n` complete pairs can be read, the known ones among them with these settings, and
then `r'` is left. -/
inductive Pairs : Nat → Reader → List Setting → Reader → Prop
  | done {r : Reader} : Pairs 0 r [] r
  | int {n : Nat} {r r₁ r₂ r' : Reader} {ss : List Setting} {f : IntField} {v : Int}
    (hkey : r.readStr = some (f.key, r₁)) (hval : r₁.readInt = some (v, r₂))
    (rest : Pairs n r₂ ss r') : Pairs (n + 1) r (.int f v :: ss) r'
  | battMult {n : Nat} {r r₁ r₂ r' : Reader} {ss : List Setting} {bits : UInt32}
    (hkey : r.readStr = some (battMultKey, r₁)) (hval : r₁.readFloat32 = some (bits, r₂))
    (rest : Pairs n r₂ ss r') : Pairs (n + 1) r (.battMult bits :: ss) r'
  | displayName {n : Nat} {r r₁ r₂ r' : Reader} {ss : List Setting} {s : Bytes}
    (hkey : r.readStr = some (displayNameKey, r₁)) (hval : r₁.readStr = some (s, r₂))
    (rest : Pairs n r₂ ss r') : Pairs (n + 1) r (.displayName s :: ss) r'
  | unknown {n : Nat} {r r₁ r₂ r' : Reader} {ss : List Setting} {key : Bytes}
    (hkey : r.readStr = some (key, r₁)) (hnew : ¬KnownKey key) (hval : r₁.skipValue = some r₂)
    (rest : Pairs n r₂ ss r') : Pairs (n + 1) r ss r'

namespace ConfigProtocol

theorem applyValue_int (f : IntField) (r : Reader) (cfg : Config) :
    applyValue f.key r cfg = r.readInt.bind fun v => some (v.2, f.set v.1 cfg, 1) := by
  cases f <;> rfl

theorem applyValue_battMult (r : Reader) (cfg : Config) : applyValue battMultKey r cfg =
    r.readFloat32.bind fun v => some (v.2, Setting.apply cfg (.battMult v.1), 1) := rfl

theorem applyValue_displayName (r : Reader) (cfg : Config) : applyValue displayNameKey r cfg =
    r.readStr.bind fun v => some (v.2, Setting.apply cfg (.displayName v.1), 1) := rfl

theorem applyValue_unknown {key : Bytes} (h : ¬KnownKey key) (r : Reader) (cfg : Config) :
    applyValue key r cfg = r.skipValue.bind fun r => some (r, cfg, 0) := by
  have hint : ∀ f : IntField, key ≠ f.key := by
    intro f hf
    exact h (.inl ⟨f, hf⟩)
  have hfreq : key ≠ ascii "freq_hz" := hint .freqHz
  have hbw : key ≠ ascii "bw_hz" := hint .bwHz
  have hsf : key ≠ ascii "sf" := hint .sf
  have hcr : key ≠ ascii "cr" := hint .cr
  have htxp : key ≠ ascii "txp_dbm" := hint .txpDbm
  have hlat : key ≠ ascii "lat_udeg" := hint .latUdeg
  have hlon : key ≠ ascii "lon_udeg" := hint .lonUdeg
  have halt : key ≠ ascii "alt_m" := hint .altM
  have hbatt : key ≠ ascii "batt_mult" := fun hk => h (.inr (.inl hk))
  have hname : key ≠ ascii "display_name" := fun hk => h (.inr (.inr hk))
  rw [applyValue, if_neg hfreq, if_neg hbw, if_neg hsf, if_neg hcr, if_neg htxp, if_neg hlat,
    if_neg hlon, if_neg halt, if_neg hbatt, if_neg hname]
  rfl

/-- One turn of the loop: the next pair is read and applied. -/
theorem applySetFields_pair {r r₁ r₂ : Reader} {key : Bytes} {cfg cfg' : Config} {k : Nat}
    (hkey : r.readStr = some (key, r₁)) (hval : applyValue key r₁ cfg = some (r₂, cfg', k))
    (n applied : Nat) : applySetFields (n + 1) r cfg applied =
      applySetFields n r₂ cfg' (applied + k) := by
  simp only [applySetFields, hkey, hval]

/-- A pair with a known key comes before the others, and counts. -/
theorem applySetFields_known {m n applied : Nat} {r r₁ r₂ r' : Reader} {key : Bytes}
    {cfg : Config} {s : Setting} {ss : List Setting} (hkey : r.readStr = some (key, r₁))
    (hval : applyValue key r₁ cfg = some (r₂, s.apply cfg, 1))
    (ih : ∀ cfg applied, applySetFields (m + n) r₂ cfg applied =
      applySetFields n r' (applyAll cfg ss) (applied + ss.length)) :
    applySetFields (m + 1 + n) r cfg applied =
      applySetFields n r' (applyAll cfg (s :: ss)) (applied + (s :: ss).length) := by
  rw [Nat.add_right_comm, applySetFields_pair hkey hval, ih, List.length_cons, Nat.add_assoc,
    Nat.add_comm 1]
  rfl

theorem applySetFields_of_pairs {m : Nat} {r r' : Reader} {ss : List Setting}
    (h : Pairs m r ss r') (n : Nat) (cfg : Config) (applied : Nat) :
    applySetFields (m + n) r cfg applied =
      applySetFields n r' (applyAll cfg ss) (applied + ss.length) := by
  induction h generalizing cfg applied with
  | done => rw [Nat.zero_add]; rfl
  | int hkey hval rest ih =>
    refine applySetFields_known hkey ?_ ih
    rw [applyValue_int, hval]
    rfl
  | battMult hkey hval rest ih =>
    refine applySetFields_known hkey ?_ ih
    rw [applyValue_battMult, hval]
    rfl
  | displayName hkey hval rest ih =>
    refine applySetFields_known hkey ?_ ih
    rw [applyValue_displayName, hval]
    rfl
  | @unknown m r r₁ r₂ r' ss key hkey hnew hval rest ih =>
    have hv : applyValue key r₁ cfg = some (r₂, cfg, 0) := by
      rw [applyValue_unknown hnew, hval]
      rfl
    rw [Nat.add_right_comm, applySetFields_pair hkey hv, ih]
    rfl

theorem applySetFields_pairs {n : Nat} {r r' : Reader} {ss : List Setting} (h : Pairs n r ss r')
    (cfg : Config) : applySetFields n r cfg 0 = (some ss.length, applyAll cfg ss) := by
  have hrun := applySetFields_of_pairs h 0 cfg 0
  rw [Nat.add_zero, Nat.zero_add] at hrun
  exact hrun

/-- A pair that can be read is one of the four kinds. -/
theorem exists_pair {r r₁ r₂ : Reader} {key : Bytes} {cfg cfg' : Config} {k : Nat}
    (hkey : r.readStr = some (key, r₁)) (hval : applyValue key r₁ cfg = some (r₂, cfg', k)) :
    ∃ ss, Pairs 1 r ss r₂ ∧ cfg' = applyAll cfg ss ∧ k = ss.length := by
  by_cases hknown : KnownKey key
  swap
  · rw [applyValue_unknown hknown] at hval
    obtain ⟨r₃, hr₃, hval⟩ := Option.bind_eq_some_iff.mp hval
    cases hval
    exact ⟨[], .unknown hkey hknown hr₃ .done, rfl, rfl⟩
  rcases hknown with ⟨f, rfl⟩ | rfl | rfl
  · rw [applyValue_int] at hval
    obtain ⟨⟨v, r₃⟩, hv, hval⟩ := Option.bind_eq_some_iff.mp hval
    cases hval
    exact ⟨[.int f v], .int hkey hv .done, rfl, rfl⟩
  · rw [applyValue_battMult] at hval
    obtain ⟨⟨v, r₃⟩, hv, hval⟩ := Option.bind_eq_some_iff.mp hval
    cases hval
    exact ⟨[.battMult v], .battMult hkey hv .done, rfl, rfl⟩
  · rw [applyValue_displayName] at hval
    obtain ⟨⟨v, r₃⟩, hv, hval⟩ := Option.bind_eq_some_iff.mp hval
    cases hval
    exact ⟨[.displayName v], .displayName hkey hv .done, rfl, rfl⟩

end ConfigProtocol

theorem Pairs.append {m n : Nat} {r r₁ r₂ : Reader} {ss ss' : List Setting}
    (h : Pairs m r ss r₁) (h' : Pairs n r₁ ss' r₂) : Pairs (m + n) r (ss ++ ss') r₂ := by
  induction h with
  | done => rw [Nat.zero_add]; exact h'
  | int hkey hval rest ih => rw [Nat.add_right_comm]; exact .int hkey hval (ih h')
  | battMult hkey hval rest ih => rw [Nat.add_right_comm]; exact .battMult hkey hval (ih h')
  | displayName hkey hval rest ih => rw [Nat.add_right_comm]; exact .displayName hkey hval (ih h')
  | unknown hkey hnew hval rest ih => rw [Nat.add_right_comm]; exact .unknown hkey hnew hval (ih h')

/-- Every pair takes at least two bytes. -/
theorem Pairs.length_le {n : Nat} {r r' : Reader} {ss : List Setting} (h : Pairs n r ss r') :
    2 * ss.length + r'.rest.length ≤ r.rest.length := by
  induction h with
  | done => simp
  | int hkey hval rest ih =>
    have h₁ := Reader.readStr_lt hkey
    have h₂ := Reader.readInt_lt hval
    rw [List.length_cons]
    omega
  | battMult hkey hval rest ih =>
    have h₁ := Reader.readStr_lt hkey
    have h₂ := Reader.readFloat32_lt hval
    rw [List.length_cons]
    omega
  | displayName hkey hval rest ih =>
    have h₁ := Reader.readStr_lt hkey
    have h₂ := Reader.readStr_lt hval
    rw [List.length_cons]
    omega
  | unknown hkey hnew hval rest ih =>
    have h₁ := Reader.readStr_lt hkey
    have h₂ := Reader.skipValue_lt hval
    omega

namespace ConfigProtocol

/-- The loop reads and applies all its pairs, or those before the first that cannot be read. -/
theorem applySetFields_cases (n : Nat) (r : Reader) (cfg : Config) (applied : Nat) :
    (∃ ss r', Pairs n r ss r' ∧
      applySetFields n r cfg applied = (some (applied + ss.length), applyAll cfg ss)) ∨
    ∃ m ss r', m < n ∧ Pairs m r ss r' ∧ (∀ ss' r'', ¬Pairs 1 r' ss' r'') ∧
      applySetFields n r cfg applied = (none, applyAll cfg ss) := by
  induction n generalizing r cfg applied with
  | zero => exact .inl ⟨[], r, .done, rfl⟩
  | succ n ih =>
    by_cases hone : ∃ ss r', Pairs 1 r ss r'
    · obtain ⟨ss, r₁, hss⟩ := hone
      have hstep := applySetFields_of_pairs hss n cfg applied
      rw [Nat.add_comm 1 n] at hstep
      rw [hstep]
      rcases ih r₁ (applyAll cfg ss) (applied + ss.length) with
        ⟨ss', r', hpairs, heq⟩ | ⟨m, ss', r', hm, hpairs, hstuck, heq⟩
      · refine .inl ⟨ss ++ ss', r', ?_, ?_⟩
        · rw [Nat.add_comm n 1]
          exact hss.append hpairs
        · rw [heq, List.length_append, Nat.add_assoc, applyAll, applyAll, applyAll,
            List.foldl_append]
      · refine .inr ⟨1 + m, ss ++ ss', r', by omega, hss.append hpairs, hstuck, ?_⟩
        rw [heq, applyAll, applyAll, applyAll, List.foldl_append]
    · refine .inr ⟨0, [], r, by omega, .done, fun ss' r'' h => hone ⟨ss', r'', h⟩, ?_⟩
      cases hkey : r.readStr with
      | none => simp only [applySetFields, hkey]; rfl
      | some p =>
        obtain ⟨key, r₁⟩ := p
        cases hval : applyValue key r₁ cfg with
        | none => simp only [applySetFields, hkey, hval]; rfl
        | some q =>
          obtain ⟨ss, hss, -⟩ := exists_pair hkey hval
          exact absurd ⟨ss, q.1, hss⟩ hone

end ConfigProtocol
end Reticulum
