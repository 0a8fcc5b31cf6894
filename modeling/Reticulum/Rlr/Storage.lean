import Reticulum.Rns.Bytes

/-!
# File access (`Storage`)

The file system of the board is not part of the repository. What the wrapper relies on is here: a
path has a file with some bytes or none, and opening for writing appends. Every call of it may
fail; how the calls of one function go is an argument.
-/

namespace Reticulum

structure Fs where
  mounted : Bool
  files : String → Option Bytes

/-- How the `exists`, `open` and `read` of one `load_file` go; `stopsAt` bounds what `read` gets. -/
structure ReadCalls where
  existsOk : Bool := true
  openOk : Bool := true
  readOk : Bool := true
  stopsAt : Option Nat := none
deriving DecidableEq

/-- How the `exists`, `remove`, `open` and `write` of one `save_file` go. -/
structure WriteCalls where
  existsOk : Bool := true
  removeOk : Bool := true
  openOk : Bool := true
  stopsAt : Option Nat := none
deriving DecidableEq

namespace Storage

def upTo (stopsAt : Option Nat) (b : Bytes) : Bytes :=
  match stopsAt with
  | none => b
  | some n => b.take n

def set (fs : Fs) (path : String) (file : Option Bytes) : Fs :=
  { fs with files := fun p => if p = path then file else fs.files p }

/-- `InternalFS.exists`; when it fails it finds nothing. -/
def internalExists (fs : Fs) (path : String) (callOk : Bool) : Bool :=
  callOk && (fs.files path).isSome

/-- `exists`. -/
def pathExists (fs : Fs) (path : String) (callOk : Bool) : Bool :=
  if !fs.mounted then false else internalExists fs path callOk

/-- `load_file`: what it puts into the buffer, or `none` where it returns a negative number. -/
def loadFile (fs : Fs) (path : String) (bufsize : Nat) (calls : ReadCalls) : Option Bytes :=
  if !fs.mounted || !internalExists fs path calls.existsOk then none
  else if !calls.openOk then none
  else if !calls.readOk then none
  else some (upTo calls.stopsAt (((fs.files path).getD []).take bufsize))

def saveFile (fs : Fs) (path : String) (data : Bytes) (calls : WriteCalls) : Bool × Fs :=
  if !fs.mounted then (false, fs)
  else
    -- the result of `remove` is not looked at
    let fs := if internalExists fs path calls.existsOk && calls.removeOk then set fs path none
      else fs
    if !calls.openOk then (false, fs)
    else
      let written := upTo calls.stopsAt data
      (decide (written.length = data.length),
        set fs path (some ((fs.files path).getD [] ++ written)))

@[simp] theorem set_mounted (fs : Fs) (path : String) (file : Option Bytes) :
    (set fs path file).mounted = fs.mounted := rfl

@[simp] theorem set_files (fs : Fs) (path : String) (file : Option Bytes) :
    (set fs path file).files path = file := if_pos rfl

theorem length_upTo_le (stopsAt : Option Nat) (b : Bytes) :
    (upTo stopsAt b).length ≤ b.length := by
  cases stopsAt with
  | none => exact le_rfl
  | some n => simp [upTo]

theorem upTo_eq_self {stopsAt : Option Nat} {b : Bytes}
    (h : (upTo stopsAt b).length = b.length) : upTo stopsAt b = b := by
  cases stopsAt with
  | none => rfl
  | some n =>
    rw [upTo, List.length_take] at h
    exact List.take_of_length_le (by omega)

end Storage
end Reticulum
