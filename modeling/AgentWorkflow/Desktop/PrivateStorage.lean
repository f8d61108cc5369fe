import AgentWorkflow.Desktop.SseHandle
import AgentWorkflow.Lib.Crash
import AgentWorkflow.Lib.JsValue

/-!
# Private storage (`electron/utils/private-storage.ts`)

The marked directory and its files, as one process of the owner sees them: it is the only
one that changes them, and no path is redirected. A crash can come before any effect.
-/

namespace AgentWorkflow.Desktop.PrivateStorage
open AgentWorkflow.Lib AgentWorkflow.Lib.Js AgentWorkflow.Lib.PyStr
open Sse (Bytes)

def ROOT_MARKER_MAX_BYTES : ℕ := 1024
def MAX_FILE_BYTES : ℕ := 16 * 1024 * 1024

inductive PrivateFileMode
  | m600
  | m644
deriving DecidableEq

structure File where
  ino : ℕ
  mode : PrivateFileMode
  contents : Bytes
deriving DecidableEq

/-- A temporary name begins with a dot, which no file name does. -/
inductive Path
  | marker
  | file (subdir name : Str)
  | temp (subdir name hex : Str)
deriving DecidableEq

/-- The directories have mode 0700 from the start. -/
structure Disk where
  appDataRoot : Bool
  root : Bool
  subdirs : Str → Bool
  files : Path → Option File
  nextIno : ℕ

inductive Effect
  | mkdirAppDataRoot
  | mkdirRoot
  | mkdirSubdir (subdir : Str)
  | create (path : Path) (mode : PrivateFileMode)
  | append (path : Path) (piece rest : Bytes)
  | rename (source target : Path)
  | unlink (path : Path)

inductive StorageError
  | enoent
  | eexist
  | message (text : String)

abbrev Storage := Crashing Disk Effect StorageError

def Disk.put (p : Path) (f : Option File) (d : Disk) : Disk := { d with files := Function.update d.files p f }

def apply : Effect → Disk → Disk
  | .mkdirAppDataRoot, d => { d with appDataRoot := true }
  | .mkdirRoot, d => { d with root := true }
  | .mkdirSubdir subdir, d => { d with subdirs := Function.update d.subdirs subdir true }
  | .create p mode, d => { d.put p (some ⟨d.nextIno, mode, []⟩) with nextIno := d.nextIno + 1 }
  -- `rest` is what the program has still to write
  | .append p piece _, d => d.put p ((d.files p).map fun f => { f with contents := f.contents ++ piece })
  | .rename source target, d => (d.put target (d.files source)).put source none
  | .unlink p, d => d.put p none

def act (e : Effect) : Storage Unit := Crashing.act apply e
def ask {α : Type} (f : Disk → Except StorageError α) : Storage α := Crashing.ask f
def raise {α : Type} (text : String) : Storage α := Crashing.raise (.message text)

/-! ### Names and sizes -/

def isLower (c : UInt16) : Bool := decide (0x61 ≤ c ∧ c ≤ 0x7A)
def isUpper (c : UInt16) : Bool := decide (0x41 ≤ c ∧ c ≤ 0x5A)
def isDigit (c : UInt16) : Bool := decide (0x30 ≤ c ∧ c ≤ 0x39)

/-- `PRIVATE_SUBDIR_RE` -/
def validSubdir : Str → Bool
  | [] => false
  | c :: t => isLower c && decide (t.length ≤ 31) && t.all fun c => isLower c || isDigit c || decide (c = 0x2D)

/-- `PRIVATE_BASENAME_RE`, which leaves no separator to `basename`, and no `..`. -/
def validFilename (value : Str) : Bool :=
  match value with
  | [] => false
  | c :: t =>
    (isUpper c || isLower c || isDigit c) && decide (t.length ≤ 127) &&
      (t.all fun c => isUpper c || isLower c || isDigit c || decide (c = 0x2E ∨ c = 0x5F ∨ c = 0x2D)) &&
      decide (¬ str ".." <:+: value)

def validSizeCap (value : ℕ) : Bool := decide (0 < value ∧ value ≤ MAX_FILE_BYTES)

def check (ok : Bool) (text : String) : Except StorageError Unit := if ok then .ok () else .error (.message text)

/-! ### Reading -/

def readVerifiedFileAtPath (target : Path) (maxBytes : ℕ) (mode : PrivateFileMode) (d : Disk) : Except StorageError File :=
  match d.files target with
  | none => .error .enoent
  | some f =>
    if f.mode ≠ mode then .error (.message "private_file_unsafe_permissions")
    else if maxBytes < f.contents.length then .error (.message "private_file_too_large")
    else .ok f

def readExistingIdentity (target : Path) (maxBytes : ℕ) (mode : PrivateFileMode) (d : Disk) : Except StorageError (Option ℕ) :=
  match readVerifiedFileAtPath target maxBytes mode d with
  | .ok f => .ok (some f.ino)
  | .error .enoent => .ok none
  | .error x => .error x

def rootMarker : Bytes := Sse.asciiBytes "\x7b\"schema\":\"awp-private-storage-root\",\"version\":1\x7d\n"

/-- `Object.keys(value).sort()` are these. -/
def hasExactKeys (members : List (Str × Value)) (expected : List Str) : Bool := (members.map Prod.fst).isPerm expected

/-- `JSON.parse(buffer.toString('utf8'))` -/
def parseBytes (contents : Bytes) : Option Value := Js.parse (fun c : CodePoint => c.val) (Utf8.decodeReplace contents)

def isMarker (contents : Bytes) : Bool :=
  match parseBytes contents with
  | some (.obj members) =>
    hasExactKeys members [str "schema", str "version"] &&
      decide (asString ((Value.obj members).get (str "schema")) = some (str "awp-private-storage-root")) &&
      decide (asNumber ((Value.obj members).get (str "version")) = some ⟨false, 0x3FF0000000000000⟩)
  | _ => false

def validateRootMarker (d : Disk) : Except StorageError Unit :=
  match readVerifiedFileAtPath .marker ROOT_MARKER_MAX_BYTES .m600 d with
  | .error x => .error x
  | .ok f => check (isMarker f.contents) "private_storage_marker_invalid"

/-- Whether the subdirectory is there. -/
def locateExistingPrivateSubdir (subdir : Str) (d : Disk) : Except StorageError Bool := do
  check (validSubdir subdir) "private_storage_subdir_invalid"
  if d.appDataRoot && d.root then
    validateRootMarker d
    return d.subdirs subdir
  else return false

def readPrivateFileIfExists (subdir name : Str) (maxBytes : ℕ) (mode : PrivateFileMode) (d : Disk) :
    Except StorageError (Option File) := do
  check (validSizeCap maxBytes) "private_storage_size_cap_invalid"
  if ← locateExistingPrivateSubdir subdir d then
    check (validFilename name) "private_storage_filename_invalid"
    match readVerifiedFileAtPath (.file subdir name) maxBytes mode d with
    | .ok f => return some f
    | .error .enoent => return none
    | .error x => .error x
  else return none

/-! ### Writing -/

/-- Each `writeSync` writes one byte more than the next of `counts`, and when these have
run out whatever is left. -/
def writeAll (path : Path) : List ℕ → Bytes → Storage Unit
  | _, [] => pure ()
  | [], b :: bytes => act (.append path (b :: bytes) [])
  | n :: counts, b :: bytes => do
    act (.append path (b :: bytes.take n) (bytes.drop n))
    writeAll path counts (bytes.drop n)

def createExclusiveFileAtPath (target : Path) (bytes : Bytes) (mode : PrivateFileMode) (maxBytes : ℕ) (counts : List ℕ) :
    Storage Unit := do
  ask fun _ => check (decide (bytes.length ≤ maxBytes)) "private_file_too_large"
  ask fun d => if (d.files target).isSome then .error .eexist else .ok ()
  act (.create target mode)
  writeAll target counts bytes

def ensurePrivateStorageSubdir (subdir : Str) (counts : List ℕ) : Storage Unit := do
  ask fun _ => check (validSubdir subdir) "private_storage_subdir_invalid"
  if !(← ask fun d => .ok d.appDataRoot) then act .mkdirAppDataRoot
  if !(← ask fun d => .ok d.root) then
    act .mkdirRoot
    createExclusiveFileAtPath .marker rootMarker .m600 ROOT_MARKER_MAX_BYTES counts
  ask validateRootMarker
  if !(← ask fun d => .ok (d.subdirs subdir)) then act (.mkdirSubdir subdir)

/-- `counts` are those of the file, `markerCounts` those of the marker. -/
def createExclusivePrivateFile (subdir name : Str) (contents : Bytes) (maxBytes : ℕ) (mode : PrivateFileMode)
    (counts markerCounts : List ℕ) : Storage Unit := do
  ask fun _ => check (validSizeCap maxBytes) "private_storage_size_cap_invalid"
  ask fun _ => check (validFilename name) "private_storage_filename_invalid"
  ensurePrivateStorageSubdir subdir markerCounts
  createExclusiveFileAtPath (.file subdir name) contents mode maxBytes counts

/-- `hex` are the random bytes of the temporary name. -/
def atomicWritePrivateFile (subdir name : Str) (contents : Bytes) (maxBytes : ℕ) (mode : PrivateFileMode) (hex : Str)
    (counts markerCounts : List ℕ) : Storage Unit := do
  ask fun _ => check (validSizeCap maxBytes) "private_storage_size_cap_invalid"
  ask fun _ => check (validFilename name) "private_storage_filename_invalid"
  ask fun _ => check (decide (contents.length ≤ maxBytes)) "private_file_too_large"
  ensurePrivateStorageSubdir subdir markerCounts
  let previous ← ask (readExistingIdentity (.file subdir name) maxBytes mode)
  createExclusiveFileAtPath (.temp subdir name hex) contents mode maxBytes counts
  match ← ask (fun d => .ok (readExistingIdentity (.file subdir name) maxBytes mode d)) with
  | .error x =>
    act (.unlink (.temp subdir name hex))
    Crashing.raise x
  | .ok current =>
    if previous ≠ current then
      act (.unlink (.temp subdir name hex))
      raise (if previous = none then "private_file_created_during_replace" else "private_file_replaced_during_write")
    else
      act (.rename (.temp subdir name hex) (.file subdir name))
      let committed ← ask (readVerifiedFileAtPath (.file subdir name) maxBytes mode)
      if committed.contents ≠ contents then raise "private_file_commit_mismatch"

def removePrivateFile (subdir name : Str) (maxBytes : ℕ) (mode : PrivateFileMode) : Storage Bool := do
  match ← ask (readPrivateFileIfExists subdir name maxBytes mode) with
  | none => return false
  | some _ =>
    act (.unlink (.file subdir name))
    return true

/-! ### Calls and crashes -/

/-- How a file is used: every call on it has the same cap and mode. -/
structure Limits where
  maxBytes : ℕ
  mode : PrivateFileMode
  valid : validSizeCap maxBytes = true

inductive Call
  | create (subdir name : Str) (contents : Bytes) (counts markerCounts : List ℕ)
  | write (subdir name : Str) (contents : Bytes) (hex : Str) (counts markerCounts : List ℕ)
  | remove (subdir name : Str)

/-- What each file should hold: the contents that the last completed call left, and those
of the write that was interrupted since. -/
structure State where
  disk : Disk
  last : Str → Str → Option Bytes
  interrupted : Str → Str → Option Bytes

def set {α : Type} (f : Str → Str → α) (subdir name : Str) (a : α) : Str → Str → α :=
  Function.update f subdir (Function.update (f subdir) name a)

section
variable (use : Str → Str → Limits)

def Call.program : Call → Storage Unit
  | .create subdir name contents counts markerCounts =>
    createExclusivePrivateFile subdir name contents (use subdir name).maxBytes (use subdir name).mode counts markerCounts
  | .write subdir name contents hex counts markerCounts =>
    atomicWritePrivateFile subdir name contents (use subdir name).maxBytes (use subdir name).mode hex counts markerCounts
  | .remove subdir name => do
    let _ ← removePrivateFile subdir name (use subdir name).maxBytes (use subdir name).mode

def Call.completed : Call → State → State
  | .create subdir name contents _ _, s | .write subdir name contents _ _ _, s =>
    { s with last := set s.last subdir name (some contents), interrupted := set s.interrupted subdir name none }
  | .remove subdir name, s =>
    { s with last := set s.last subdir name none, interrupted := set s.interrupted subdir name none }

def Call.cutOff : Call → State → State
  | .create subdir name contents _ _, s | .write subdir name contents _ _ _, s =>
    { s with interrupted := set s.interrupted subdir name (some contents) }
  | .remove _ _, s => s

/-- One call, cut off after `steps` effects or not at all. -/
def step (s : State) (i : Call × Option ℕ) : State × Except (Stop Effect StorageError) Unit :=
  let r := Crashing.exec i.2 s.disk (i.1.program use)
  let s := { s with disk := r.2 }
  match r.1 with
  | .ok _ => (i.1.completed s, r.1)
  | .error (.error _) => (s, r.1)
  | .error (.crash _) => (i.1.cutOff s, r.1)

def machine : Machine State (Call × Option ℕ) (Except (Stop Effect StorageError) Unit) := ⟨step use⟩

end

def initial : State := ⟨⟨false, false, fun _ => false, fun _ => none, 0⟩, fun _ _ => none, fun _ _ => none⟩

end AgentWorkflow.Desktop.PrivateStorage
