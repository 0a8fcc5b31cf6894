import Reticulum.Rlr.ConfigStore

/-!
# What a save leaves behind when file calls fail

`save_file` removes the old file, opens and writes. The old file is gone before the new bytes are
safe, and when the removal fails the new bytes go behind the old ones.
-/

namespace Reticulum
namespace ConfigStore
open Storage

/-- After a save that reports success the file loads as the saved record, after one that reports
failure it loads as before. -/
def KeepsPromise (fs : Fs) (calls : SaveCalls) (cfg : Config) : Prop :=
  ((save fs calls cfg).1 = true → cfg.version = ({} : Config).version →
    load (save fs calls cfg).2 {} = some (stamped cfg)) ∧
  ((save fs calls cfg).1 = false → load (save fs calls cfg).2 {} = load fs {})

/-- What the bytes of a file load as. -/
def loadsAs (file : Option Bytes) : Option Config :=
  file.bind fun b => accept (b.take Config.size)

/-- The old file holds the record already, and the reads that compare them work. -/
def UpToDate (fs : Fs) (calls : SaveCalls) (cfg : Config) : Prop :=
  pathExists fs path calls.existsOk = true ∧
    loadFile fs path Config.size calls.read = some (stamped cfg).bytes

/-- The old file is there, found and removed. -/
def Removes (fs : Fs) (calls : SaveCalls) : Prop :=
  (fs.files path).isSome ∧ calls.write.existsOk = true ∧ calls.write.removeOk = true

instance (fs : Fs) (calls : SaveCalls) (cfg : Config) : Decidable (UpToDate fs calls cfg) :=
  inferInstanceAs (Decidable (_ ∧ _))

instance (fs : Fs) (calls : SaveCalls) : Decidable (Removes fs calls) :=
  inferInstanceAs (Decidable (_ ∧ _))

/-- What is left of the old file when the new bytes are written. -/
def kept (fs : Fs) (calls : SaveCalls) : Bytes :=
  if Removes fs calls then [] else (fs.files path).getD []

/-- When nothing that fails does harm. -/
structure Harmless (fs : Fs) (calls : SaveCalls) (cfg : Config) : Prop where
  /-- a removed file that nothing replaces was no configuration -/
  unopened : calls.write.openOk = false → Removes fs calls → loadsAs (fs.files path) = none
  /-- nothing stands before the new bytes, or their own beginning does -/
  complete : calls.write.openOk = true →
    (upTo calls.write.stopsAt (stamped cfg).bytes).length = Config.size →
    cfg.version = ({} : Config).version →
    (kept fs calls ++ (stamped cfg).bytes).take Config.size = (stamped cfg).bytes
  /-- a removed file that a part of the record replaces was no configuration, and a part of the
  record does not make one of a file that was too short to be one -/
  partly : calls.write.openOk = true →
    (upTo calls.write.stopsAt (stamped cfg).bytes).length < Config.size →
    (Removes fs calls → loadsAs (fs.files path) = none) ∧
    ((kept fs calls).length < Config.size →
      loadsAs (some (kept fs calls ++ upTo calls.write.stopsAt (stamped cfg).bytes)) = none)

section
variable {fs : Fs} {calls : SaveCalls} {cfg : Config}

theorem load_eq (hm : fs.mounted = true) : load fs {} = loadsAs (fs.files path) := by
  rw [load_working, if_pos hm]
  rfl

theorem loadsAs_of_length_lt {b : Bytes} (h : b.length < Config.size) :
    loadsAs (some b) = none := by
  have hne : (b.take Config.size).length ≠ Config.size := by
    rw [List.length_take]
    omega
  exact accept_of_length_ne hne

/-- Only the first bytes of a file count. -/
theorem loadsAs_append {b : Bytes} (t : Bytes) (h : Config.size ≤ b.length) :
    loadsAs (some (b ++ t)) = loadsAs (some b) := by
  show accept ((b ++ t).take Config.size) = accept (b.take Config.size)
  rw [List.take_append_of_le_length h]

theorem loadsAs_eq_stamped {b : Bytes} (hversion : cfg.version = ({} : Config).version) :
    loadsAs (some b) = some (stamped cfg) ↔ b.take Config.size = (stamped cfg).bytes := by
  constructor
  · intro h
    exact (accept_eq_some.mp h).1
  · intro h
    show accept (b.take Config.size) = _
    rw [h, accept_stamped hversion]

theorem save_of_unmounted (hm : fs.mounted = false) : save fs calls cfg = (false, fs) := by
  simp [save, pathExists, saveFile, hm]

theorem save_of_upToDate (h : UpToDate fs calls cfg) : save fs calls cfg = (true, fs) := by
  simp [save, h.1, h.2]

theorem load_of_upToDate (h : UpToDate fs calls cfg)
    (hversion : cfg.version = ({} : Config).version) : load fs {} = some (stamped cfg) := by
  obtain ⟨hexists, hread⟩ := h
  have hm : fs.mounted = true := by
    cases hm : fs.mounted with
    | false => simp [pathExists, hm] at hexists
    | true => rfl
  cases hf : fs.files path with
  | none => simp [pathExists, internalExists, hf] at hexists
  | some old =>
    have hupTo : upTo calls.read.stopsAt (old.take Config.size) = (stamped cfg).bytes := by
      unfold loadFile at hread
      split_ifs at hread
      rw [← Option.some.inj hread, hf, Option.getD_some]
    have hlen : (upTo calls.read.stopsAt (old.take Config.size)).length =
        (old.take Config.size).length := by
      have hle := length_upTo_le calls.read.stopsAt (old.take Config.size)
      have htake := List.length_take_le Config.size old
      rw [hupTo, Config.length_bytes] at hle ⊢
      omega
    rw [load_eq hm, hf, loadsAs_eq_stamped hversion, ← hupTo, upTo_eq_self hlen]

theorem save_of_not_upToDate (h : ¬UpToDate fs calls cfg) :
    save fs calls cfg = saveFile fs path (stamped cfg).bytes calls.write := by
  have hcond : ¬((pathExists fs path calls.existsOk && decide (loadFile fs path Config.size
      calls.read = some (stamped cfg).bytes)) = true) := by
    rw [Bool.and_eq_true, decide_eq_true_eq]
    exact h
  rw [save, if_neg hcond]

/-- The file system when `save_file` opens the file. -/
theorem removal_eq : (if internalExists fs path calls.write.existsOk && calls.write.removeOk
    then set fs path none else fs) = if Removes fs calls then set fs path none else fs := by
  have hiff : (internalExists fs path calls.write.existsOk && calls.write.removeOk) = true ↔
      Removes fs calls := by
    simp only [internalExists, Bool.and_eq_true, Removes]
    tauto
  simp only [hiff]

theorem saveFile_unopened (hm : fs.mounted = true) (ho : calls.write.openOk = false) :
    saveFile fs path (stamped cfg).bytes calls.write =
      (false, if Removes fs calls then set fs path none else fs) := by
  rw [saveFile, removal_eq]
  simp [hm, ho]

theorem saveFile_opened (hm : fs.mounted = true) (ho : calls.write.openOk = true) :
    let part := upTo calls.write.stopsAt (stamped cfg).bytes
    (saveFile fs path (stamped cfg).bytes calls.write).1 = decide (part.length = Config.size) ∧
      load (saveFile fs path (stamped cfg).bytes calls.write).2 {} =
        loadsAs (some (kept fs calls ++ part)) := by
  have hkept : ((if Removes fs calls then set fs path none else fs).files path).getD [] =
      kept fs calls := by
    unfold kept
    split <;> simp
  have hmounted : (if Removes fs calls then set fs path none else fs).mounted = true := by
    split
    · exact hm
    · exact hm
  rw [saveFile, removal_eq]
  simp only [hm, ho, Bool.not_true, if_false, Bool.false_eq_true, hkept, Config.length_bytes]
  refine ⟨trivial, ?_⟩
  rw [load_eq (by simpa using hmounted), set_files]

theorem keepsPromise_unopened (hm : fs.mounted = true) (hu : ¬UpToDate fs calls cfg)
    (ho : calls.write.openOk = false) : KeepsPromise fs calls cfg ↔
      (Removes fs calls → loadsAs (fs.files path) = none) := by
  rw [KeepsPromise, save_of_not_upToDate hu, saveFile_unopened hm ho]
  simp only [Bool.false_eq_true, false_implies, true_and, forall_const]
  by_cases hr : Removes fs calls
  · have hgone : load (set fs path none) {} = none := by
      rw [load_eq (show (set fs path none).mounted = true from hm), set_files]
      rfl
    rw [if_pos hr, hgone, load_eq hm]
    simp only [hr, forall_const]
    exact eq_comm
  · rw [if_neg hr, load_eq hm]
    simp [hr]

theorem keepsPromise_complete (hm : fs.mounted = true) (hu : ¬UpToDate fs calls cfg)
    (ho : calls.write.openOk = true)
    (hfull : (upTo calls.write.stopsAt (stamped cfg).bytes).length = Config.size) :
    KeepsPromise fs calls cfg ↔ (cfg.version = ({} : Config).version →
      (kept fs calls ++ (stamped cfg).bytes).take Config.size = (stamped cfg).bytes) := by
  obtain ⟨hresult, hload⟩ := @saveFile_opened fs calls cfg hm ho
  have hpart : upTo calls.write.stopsAt (stamped cfg).bytes = (stamped cfg).bytes :=
    upTo_eq_self (by rw [hfull, Config.length_bytes])
  rw [KeepsPromise, save_of_not_upToDate hu, hresult, hload, decide_eq_true hfull, hpart]
  simp only [forall_const, reduceCtorEq, false_implies, and_true]
  constructor
  · intro h hversion
    exact (loadsAs_eq_stamped hversion).mp (h hversion)
  · intro h hversion
    exact (loadsAs_eq_stamped hversion).mpr (h hversion)

theorem keepsPromise_partly (hm : fs.mounted = true) (hu : ¬UpToDate fs calls cfg)
    (ho : calls.write.openOk = true)
    (hpart : (upTo calls.write.stopsAt (stamped cfg).bytes).length < Config.size) :
    KeepsPromise fs calls cfg ↔ (Removes fs calls → loadsAs (fs.files path) = none) ∧
      ((kept fs calls).length < Config.size →
        loadsAs (some (kept fs calls ++ upTo calls.write.stopsAt (stamped cfg).bytes)) = none) := by
  obtain ⟨hresult, hload⟩ := @saveFile_opened fs calls cfg hm ho
  rw [KeepsPromise, save_of_not_upToDate hu, hresult, hload, load_eq hm,
    decide_eq_false (by omega)]
  simp only [Bool.false_eq_true, false_implies, true_and, forall_const]
  by_cases hr : Removes fs calls
  · -- nothing is left of the old file, so the part loads as nothing
    have hk : kept fs calls = [] := if_pos hr
    rw [hk, List.nil_append, loadsAs_of_length_lt hpart]
    simp only [hr, forall_const, implies_true, and_true]
    exact eq_comm
  · have hk : kept fs calls = (fs.files path).getD [] := if_neg hr
    simp only [hr, false_implies, true_and]
    cases hf : fs.files path with
    | none =>
      rw [hk, hf]
      simp only [Option.getD_none, List.nil_append, loadsAs_of_length_lt hpart, implies_true,
        iff_true]
      rfl
    | some old =>
      rw [hk, hf, Option.getD_some]
      by_cases hlen : old.length < Config.size
      · rw [loadsAs_of_length_lt hlen]
        simp [hlen]
      · rw [loadsAs_append _ (by omega)]
        simp [hlen]

theorem keepsPromise_unmounted (hm : fs.mounted = false) : KeepsPromise fs calls cfg := by
  rw [KeepsPromise, save_of_unmounted hm]
  simp

theorem keepsPromise_upToDate (hu : UpToDate fs calls cfg) : KeepsPromise fs calls cfg := by
  rw [KeepsPromise, save_of_upToDate hu]
  refine ⟨?_, by simp⟩
  intro _ hversion
  exact load_of_upToDate hu hversion

/-- With no failing call there is nothing to worry about. -/
theorem keepsPromise_working (fs : Fs) (cfg : Config) : KeepsPromise fs {} cfg := by
  cases hm : fs.mounted with
  | false => exact keepsPromise_unmounted hm
  | true =>
    by_cases hu : UpToDate fs {} cfg
    · exact keepsPromise_upToDate hu
    · have hkept : kept fs {} = [] := by
        cases hf : fs.files path with
        | none => simp [kept, hf]
        | some old => simp [kept, Removes, hf]
      refine (keepsPromise_complete hm hu rfl (Config.length_bytes _)).mpr ?_
      intro _
      rw [hkept, List.nil_append]
      exact List.take_of_length_le (le_of_eq (Config.length_bytes _))

end

/-- A save keeps its promise when nothing is mounted, when the file is up to date, and otherwise
exactly when no failed call does harm. -/
theorem save_keepsPromise_iff (fs : Fs) (calls : SaveCalls) (cfg : Config) :
    KeepsPromise fs calls cfg ↔
      (fs.mounted = true → ¬UpToDate fs calls cfg → Harmless fs calls cfg) := by
  by_cases hm : fs.mounted = true
  swap
  · have hm' : fs.mounted = false := by simpa using hm
    simp [keepsPromise_unmounted hm', hm']
  by_cases hu : UpToDate fs calls cfg
  · simp [keepsPromise_upToDate hu, hu]
  simp only [hm, hu, not_false_eq_true, forall_const]
  cases ho : calls.write.openOk with
  | false =>
    rw [keepsPromise_unopened hm hu ho]
    constructor
    · intro h
      exact ⟨fun _ => h, fun h' => by simp [ho] at h', fun h' => by simp [ho] at h'⟩
    · intro h
      exact h.unopened ho
  | true =>
    have hle := length_upTo_le calls.write.stopsAt (stamped cfg).bytes
    rw [Config.length_bytes] at hle
    rcases Nat.lt_or_eq_of_le hle with hpart | hfull
    · rw [keepsPromise_partly hm hu ho hpart]
      constructor
      · intro h
        exact ⟨fun h' => by simp [ho] at h', fun _ h' => by omega, fun _ _ => h⟩
      · intro h
        exact h.partly ho hpart
    · rw [keepsPromise_complete hm hu ho hfull]
      constructor
      · intro h
        exact ⟨fun h' => by simp [ho] at h', fun _ _ => h, fun _ h' => by omega⟩
      · intro h
        exact h.complete ho hfull

/-- A stored configuration at SF7, to be replaced by the defaults. -/
def oldFs : Fs := ⟨true, fun p => if p = path then some (stamped { sf := 7 }).bytes else none⟩

def removeFails : SaveCalls := { write := { removeOk := false } }
def openFails : SaveCalls := { write := { openOk := false } }

/-- A failed removal goes unnoticed: the save reports success and the old record stays in force. A
failed open after the removal leaves nothing to load. -/
theorem save_breaks_promise :
    ¬KeepsPromise oldFs removeFails {} ∧ ¬KeepsPromise oldFs openFails {} := by
  have hdone : (save oldFs removeFails {}).1 = true := by decide +kernel
  have hstale : load (save oldFs removeFails {}).2 {} ≠ some (stamped {}) := by decide +kernel
  have hfailed : (save oldFs openFails {}).1 = false := by decide +kernel
  have hlost : load (save oldFs openFails {}).2 {} ≠ load oldFs {} := by decide +kernel
  constructor
  · intro h
    exact hstale (h.1 hdone rfl)
  · intro h
    exact hlost (h.2 hfailed)

end ConfigStore
end Reticulum
