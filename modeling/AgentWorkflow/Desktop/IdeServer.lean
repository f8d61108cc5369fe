import AgentWorkflow.Lib.JsValue
import AgentWorkflow.Lib.Machine
import AgentWorkflow.Lib.OrderedDict

/-!
# The local workspace server (`electron/services/awp-ide-server/server.ts`, `lock-file.ts`)

Calls to start and to stop one HTTP server with its private lock file. Between the steps of
one call those of others run; what the runtime, the system and the random source answer is
part of each step.
-/

namespace AgentWorkflow.Desktop.IdeServer
open AgentWorkflow.Lib AgentWorkflow.Lib.Js

/-! ### Addresses -/

def decimal (n : ℕ) : Str := (Nat.toDigits 10 n).flatMap fun c => JsText.utf16 c.toNat

def octet (part : Str) : Option ℕ :=
  if part ≠ [] ∧ part.length ≤ 3 ∧ (part.all fun c => decide (0x30 ≤ c ∧ c ≤ 0x39)) = true ∧ (part = [0x30] ∨ part.head? ≠ some 0x30) then
    let value := part.foldl (fun n c => 10 * n + (c.toNat - 0x30)) 0
    if value ≤ 255 then some value else none
  else none

def normalizeAwpIdeLoopbackHost (input : Str) : Except Str Str :=
  if input ≠ JsText.trim UInt16.toNat input ∨ input = [] then .error (str "awp_ide_host_not_loopback")
  else if input.any fun c => JsText.isSpace c.toNat || decide (c ∈ str "\\/@?#") then .error (str "awp_ide_host_not_loopback")
  else if input = str "::1" ∨ input = str "[::1]" then .ok (str "::1")
  else
    match (input.splitOn 0x2E).mapM octet with
    | some [127, b, c, d] => .ok (str "127." ++ decimal b ++ str "." ++ decimal c ++ str "." ++ decimal d)
    | _ => .error (str "awp_ide_host_not_loopback")

def normalizeRequestedPort (port : ℤ) : Except Str ℕ :=
  if port < 0 ∨ 65535 < port then .error (str "awp_ide_port_invalid") else .ok port.toNat

def buildAwpIdeUrl (host : Str) (port : ℕ) : Except Str Str := do
  let canonicalHost ← normalizeAwpIdeLoopbackHost host
  let canonicalPort ← normalizeRequestedPort port
  if canonicalPort = 0 then throw (str "awp_ide_port_invalid")
  let authority := if canonicalHost = str "::1" then str "[" ++ canonicalHost ++ str "]" else canonicalHost
  return str "http://" ++ authority ++ str ":" ++ decimal canonicalPort ++ str "/mcp"

/-! ### The lock file -/

structure IdeLockInput where
  host : Str
  port : ℕ
  token : Str
  url : Str
  desktopVersion : Str
deriving DecidableEq

/-- A lock file of this process, and the call that made it; `none` where the write failed. -/
structure LockFile where
  call : ℕ
  lockId : Str
  contents : Option IdeLockInput
deriving DecidableEq

/-- The random names, and what goes wrong: before the file is created, or after. -/
inductive Fault
  | unopened (error : Str)
  | unfinished (error : Str)
deriving DecidableEq

structure LockWrite where
  lockIds : List Str
  fault : Option Fault
deriving DecidableEq

/-- `validateLockInput`; the process id, the host, the token, the date and the address are
right by the way they are made. -/
def validateLockInput (input : IdeLockInput) : Except Str Unit :=
  if input.port < 1 ∨ 65535 < input.port then .error (str "ide_lock_port_invalid")
  else if input.desktopVersion.length < 1 ∨ 128 < input.desktopVersion.length then .error (str "ide_lock_desktop_version_invalid")
  else .ok ()

/-- `writeLockFile` with the files there are: the name, and the files afterwards. -/
def writeLockFile (call : ℕ) (input : IdeLockInput) (write : LockWrite) (locks : List LockFile) : Except Str Str × List LockFile :=
  match validateLockInput input with
  | .error error => (.error error, locks)
  | .ok () =>
    match (write.lockIds.take 4).find? fun lockId => decide (lockId ∉ locks.map LockFile.lockId) with
    | none => (.error (str "ide_lock_random_name_collision"), locks)
    | some lockId =>
      match write.fault with
      | some (.unopened error) => (.error error, locks)
      | some (.unfinished error) => (.error error, locks ++ [⟨call, lockId, none⟩])
      | none => (.ok lockId, locks ++ [⟨call, lockId, some input⟩])

/-- `deleteLockFile`: the file stays where a check fails. -/
def deleteLockFile (lockId : Str) (removed : Bool) (locks : List LockFile) : List LockFile :=
  if removed then locks.filter fun lock => decide (lock.lockId ≠ lockId) else locks

/-! ### The server -/

structure StartOptions where
  desktopVersion : Str
  host : Option Str
  port : Option ℤ
deriving DecidableEq

structure StartResult where
  port : ℕ
  token : Str
  url : Str
  lockPath : Str
deriving DecidableEq

/-- An HTTP server that listens, with the call that made it. -/
structure HttpServer where
  call : ℕ
  host : Str
  port : ℕ
deriving DecidableEq

structure RunningServer where
  http : HttpServer
  token : Str
  url : Str
  lockPath : Str
deriving DecidableEq

def RunningServer.result (r : RunningServer) : StartResult := ⟨r.http.port, r.token, r.url, r.lockPath⟩

/-- What a call waits for. -/
inductive Phase
  /-- the modules that are still to be imported -/
  | importing (left : ℕ) (host : Str) (requestedPort : ℕ) (desktopVersion : Str)
  | listening (host : Str) (requestedPort : ℕ) (desktopVersion : Str) (token : Str)
  /-- the server listens, the call has not gone on -/
  | bound (http : HttpServer) (desktopVersion : Str) (token : Str)
  /-- a start that failed closes what it made -/
  | failing (left : ℕ) (error : Str)
  | stopping (left : ℕ)
deriving DecidableEq

structure Process where
  running : Option RunningServer
  servers : List HttpServer
  locks : List LockFile
  calls : List (ℕ × Phase)
  made : ℕ
deriving DecidableEq

def initial : Process := ⟨none, [], [], [], 0⟩

inductive Outcome
  | returned (call : ℕ) (result : StartResult)
  | threw (call : ℕ) (error : Str)
  | stopped (call : ℕ)
deriving DecidableEq

inductive Event
  /-- `root` is the error of `ensureIdeDir`. -/
  | start (opts : StartOptions) (root : Option Str)
  | stop (removed : Bool)
  | imported (call : ℕ) (token : Str)
  | bound (call : ℕ) (port : ℕ)
  | listened (call : ℕ) (write : LockWrite)
  /-- an import or `listen` fails -/
  | failed (call : ℕ) (error : Str)
  /-- one of the two bounded waits for a close is over -/
  | closed (call : ℕ)
deriving DecidableEq

def Process.phase (p : Process) (call : ℕ) : Option Phase := OrderedDict.get call p.calls

def Process.wait (p : Process) (call : ℕ) (phase : Phase) : Process := { p with calls := OrderedDict.assign call phase p.calls }

def Process.finish (p : Process) (call : ℕ) : Process := { p with calls := OrderedDict.pop call p.calls }

/-- `server.close`: the server does not listen any more. -/
def Process.close (p : Process) (call : ℕ) : Process := { p with servers := p.servers.filter fun server => decide (server.call ≠ call) }

def Process.startAwpIdeServer (p : Process) (opts : StartOptions) (root : Option Str) : Process × Option Outcome :=
  match p.running with
  | some running => ({ p with made := p.made + 1 }, some (.returned p.made running.result))
  | none =>
    match normalizeAwpIdeLoopbackHost (opts.host.getD (str "127.0.0.1")), normalizeRequestedPort (opts.port.getD 0), root with
    | .error error, _, _ => ({ p with made := p.made + 1 }, some (.threw p.made error))
    | _, .error error, _ => ({ p with made := p.made + 1 }, some (.threw p.made error))
    | _, _, some error => ({ p with made := p.made + 1 }, some (.threw p.made error))
    | .ok host, .ok requestedPort, none =>
      ({ p.wait p.made (.importing 3 host requestedPort opts.desktopVersion) with made := p.made + 1 }, none)

/-- The rest of a start whose server listens. -/
def Process.register (p : Process) (call : ℕ) (http : HttpServer) (desktopVersion token : Str) (write : LockWrite) :
    Process × Option Outcome :=
  match buildAwpIdeUrl http.host http.port with
  | .error error => ((p.close call).wait call (.failing 2 error), none)
  | .ok url =>
    match writeLockFile call ⟨http.host, http.port, token, url, desktopVersion⟩ write p.locks with
    | (.error error, locks) => ((Process.close { p with locks := locks } call).wait call (.failing 2 error), none)
    | (.ok lockPath, locks) =>
      (Process.finish { p with running := some ⟨http, token, url, lockPath⟩, locks := locks } call,
        some (.returned call ⟨http.port, token, url, lockPath⟩))

def Process.stopAwpIdeServer (p : Process) (removed : Bool) : Process × Option Outcome :=
  match p.running with
  | none => ({ p with made := p.made + 1 }, some (.stopped p.made))
  | some running =>
    (Process.close
      { p.wait p.made (.stopping 2) with
        running := none
        locks := deleteLockFile running.lockPath removed p.locks
        made := p.made + 1 }
      running.http.call, none)

def Process.step (p : Process) : Event → Process × Option Outcome
  | .start opts root => p.startAwpIdeServer opts root
  | .stop removed => p.stopAwpIdeServer removed
  | .imported call token =>
    match p.phase call with
    | some (.importing (left + 2) host requestedPort desktopVersion) =>
      (p.wait call (.importing (left + 1) host requestedPort desktopVersion), none)
    | some (.importing 1 host requestedPort desktopVersion) =>
      (p.wait call (.listening host requestedPort desktopVersion token), none)
    | _ => (p, none)
  | .bound call port =>
    match p.phase call with
    | some (.listening host requestedPort desktopVersion token) =>
      let http : HttpServer := ⟨call, host, if requestedPort = 0 then port else requestedPort⟩
      (Process.wait { p with servers := p.servers ++ [http] } call (.bound http desktopVersion token), none)
    | _ => (p, none)
  | .listened call write =>
    match p.phase call with
    | some (.bound http desktopVersion token) => p.register call http desktopVersion token write
    | _ => (p, none)
  | .failed call error =>
    match p.phase call with
    | some (.importing _ _ _ _) => (Process.finish { p with running := none } call, some (.threw call error))
    | some (.listening _ _ _ _) => (p.wait call (.failing 2 error), none)
    | _ => (p, none)
  | .closed call =>
    match p.phase call with
    | some (.failing (left + 2) error) => (p.wait call (.failing (left + 1) error), none)
    -- the record is reset, also where another start has filled it
    | some (.failing 1 error) => (Process.finish { p with running := none } call, some (.threw call error))
    | some (.stopping (left + 2)) => (p.wait call (.stopping (left + 1)), none)
    | some (.stopping 1) => (p.finish call, some (.stopped call))
    | _ => (p, none)

/-! ### What is wanted -/

/-- The process, what a start returned since a stop was called last, and whether a stop was
called after the last start. -/
structure Watched where
  process : Process
  since : Option StartResult
  stopped : Bool

def Watched.step (w : Watched) (e : Event) : Watched × Option Outcome :=
  ({ process := (w.process.step e).1
     since := match e, (w.process.step e).2 with
      | .stop _, _ => none
      | _, some (.returned _ result) => some result
      | _, _ => w.since
     stopped := match e with
      | .start _ _ => false
      | .stop _ => true
      | _ => w.stopped },
    (w.process.step e).2)

def machine : Machine Watched Event (Option Outcome) := ⟨Watched.step⟩

def watched : Watched := ⟨initial, none, false⟩

/-- The start or the wait that a step belongs to. -/
def Process.caller (p : Process) : Event → Option ℕ
  | .start _ _ => some p.made
  | .stop _ => none
  | .imported call _ | .bound call _ | .listened call _ | .failed call _ | .closed call => some call

/-- What belongs to other calls stays. -/
structure Apart (call : ℕ) (p p' : Process) : Prop where
  running : p'.running = p.running
  servers : (p'.servers.filter fun server => decide (server.call ≠ call)) = p.servers.filter fun server => decide (server.call ≠ call)
  locks : (p'.locks.filter fun lock => decide (lock.call ≠ call)) = p.locks.filter fun lock => decide (lock.call ≠ call)

structure Idempotent (w : Watched) (e : Event) : Prop where
  single : (w.process.step e).1.servers.length ≤ 1 ∧ (w.process.step e).1.locks.length ≤ 1
  same : ∀ call result, (w.process.step e).2 = some (.returned call result) → ∀ earlier ∈ w.since, earlier = result
  cleared : ∀ call error, (w.process.step e).2 = some (.threw call error) →
    (∀ server ∈ (w.process.step e).1.servers, server.call ≠ call) ∧ ∀ lock ∈ (w.process.step e).1.locks, lock.call ≠ call
  apart : ∀ call, w.process.caller e = some call → (∀ result, (w.process.step e).2 ≠ some (.returned call result)) →
    Apart call w.process (w.process.step e).1
  rests : (w.process.step e).1.calls = [] → (w.step e).1.stopped = true →
    (w.process.step e).1.servers = [] ∧ (w.process.step e).1.locks = []

/-- This step of a start writes the lock file and fills the record. -/
def Process.registers (p : Process) (call : ℕ) (write : LockWrite) : Bool :=
  match p.phase call with
  | some (.bound http desktopVersion token) => (p.register call http desktopVersion token write).2.isSome
  | _ => false

/-- A server begins to listen where none does, and fills the record when no stop was called
since the last start; a start fails while the record is empty; and the lock file is written
whole or not at all, and removed. -/
def Watched.alone (w : Watched) : Event → Bool
  | .start _ _ | .imported _ _ => true
  | .stop removed => removed || w.process.running.isNone
  | .bound call _ =>
    match w.process.phase call with
    | some (.listening _ _ _ _) => w.process.servers.isEmpty
    | _ => true
  | .listened call write =>
    (!w.process.registers call write || !w.stopped) &&
      match write.fault with
      | some (.unfinished _) => false
      | _ => true
  | .failed call _ =>
    match w.process.phase call with
    | some (.importing _ _ _ _) => w.process.running.isNone
    | _ => true
  | .closed call =>
    match w.process.phase call with
    | some (.failing 1 _) => w.process.running.isNone
    | _ => true

/-! ### The calls -/

def Phase.server : Phase → Option HttpServer
  | .bound http _ _ => some http
  | _ => none

/-- The server that a start has and the record does not. -/
def Process.boundServer (p : Process) (call : ℕ) : Option HttpServer := (p.phase call).bind Phase.server

section
-- the equations are made here once, not in every proof at the same time
attribute [local simp] Process.step Watched.step Watched.alone Process.boundServer
end

theorem phase_wait (p : Process) (call : ℕ) (phase : Phase) (x : ℕ) :
    (p.wait call phase).phase x = if x = call then some phase else p.phase x := by
  by_cases hx : x = call
  · rw [if_pos hx, hx]
    exact OrderedDict.get_assign_self ..
  · rw [if_neg hx]
    exact OrderedDict.get_assign_ne hx ..

theorem phase_finish (p : Process) (call x : ℕ) : (p.finish call).phase x = if x = call then none else p.phase x := by
  by_cases hx : x = call
  · rw [if_pos hx, hx]
    exact OrderedDict.get_pop_self ..
  · rw [if_neg hx]
    exact OrderedDict.get_pop_ne hx _

theorem boundServer_wait {p : Process} {call : ℕ} {phase : Phase} (hold : p.boundServer call = none) (hnew : phase.server = none)
    (x : ℕ) : (p.wait call phase).boundServer x = p.boundServer x := by
  unfold Process.boundServer at hold ⊢
  rw [phase_wait]
  by_cases hx : x = call
  · rw [if_pos hx, hx, hold]
    exact hnew
  · rw [if_neg hx]

theorem boundServer_finish {p : Process} {call : ℕ} (hold : p.boundServer call = none) (x : ℕ) :
    (p.finish call).boundServer x = p.boundServer x := by
  unfold Process.boundServer at hold ⊢
  rw [phase_finish]
  by_cases hx : x = call
  · rw [if_pos hx, hx, hold]
    rfl
  · rw [if_neg hx]

/-! ### One server -/

/-- Nothing, a server whose start has not gone on, or the server of the record with its lock file. -/
inductive Shape (p : Process) : Prop
  | still (running : p.running = none) (servers : p.servers = []) (locks : p.locks = []) (bound : ∀ call, p.boundServer call = none)
  | bound (http : HttpServer) (running : p.running = none) (servers : p.servers = [http]) (locks : p.locks = [])
      (bound : ∀ call, p.boundServer call = if call = http.call then some http else none)
  | up (r : RunningServer) (input : IdeLockInput) (running : p.running = some r) (servers : p.servers = [r.http])
      (locks : p.locks = [⟨r.http.call, r.lockPath, some input⟩]) (bound : ∀ call, p.boundServer call = none)

structure Held (w : Watched) : Prop where
  shape : Shape w.process
  fresh : ∀ call, w.process.made ≤ call → w.process.phase call = none
  made : ∀ server ∈ w.process.servers, server.call < w.process.made
  since : ∀ result ∈ w.since, ∃ r, w.process.running = some r ∧ r.result = result
  stopped : w.stopped = true → w.process.running = none

theorem held_watched : Held watched :=
  ⟨.still rfl rfl rfl fun _ => rfl, fun _ _ => rfl, nofun, nofun, nofun⟩

/-- A step that changes neither the servers nor the lock files. -/
structure Quiet (p p' : Process) : Prop where
  running : p'.running = p.running
  servers : p'.servers = p.servers
  locks : p'.locks = p.locks
  bound : ∀ call, p'.boundServer call = p.boundServer call
  fresh : (∀ call, p.made ≤ call → p.phase call = none) → ∀ call, p'.made ≤ call → p'.phase call = none
  made : p.made ≤ p'.made

theorem Quiet.shape {p p' : Process} (h : Quiet p p') (hs : Shape p) : Shape p' := by
  cases hs with
  | still running servers locks bound =>
    exact .still (h.running.trans running) (h.servers.trans servers) (h.locks.trans locks) fun call => (h.bound call).trans (bound call)
  | bound http running servers locks bound =>
    exact .bound http (h.running.trans running) (h.servers.trans servers) (h.locks.trans locks) fun call => (h.bound call).trans (bound call)
  | up r input running servers locks bound =>
    exact .up r input (h.running.trans running) (h.servers.trans servers) (h.locks.trans locks) fun call => (h.bound call).trans (bound call)

theorem quiet_refl (p : Process) : Quiet p p := ⟨rfl, rfl, rfl, fun _ => rfl, id, le_refl _⟩

theorem quiet_wait {p : Process} {call : ℕ} {old phase : Phase} (hphase : p.phase call = some old) (hold : old.server = none)
    (hnew : phase.server = none) : Quiet p (p.wait call phase) := by
  have hbound : p.boundServer call = none := by
    unfold Process.boundServer
    rw [hphase]
    exact hold
  refine ⟨rfl, rfl, rfl, boundServer_wait hbound hnew, fun h x hx => ?_, le_refl _⟩
  rw [phase_wait, if_neg]
  · exact h x hx
  · rintro rfl
    rw [h x hx] at hphase
    cases hphase

theorem quiet_finish {p : Process} {call : ℕ} {old : Phase} (hphase : p.phase call = some old) (hold : old.server = none) :
    Quiet p (p.finish call) := by
  have hbound : p.boundServer call = none := by
    unfold Process.boundServer
    rw [hphase]
    exact hold
  refine ⟨rfl, rfl, rfl, boundServer_finish hbound, fun h x hx => ?_, le_refl _⟩
  rw [phase_finish, h x hx, ite_self]

theorem quiet_next (p : Process) : Quiet p { p with made := p.made + 1 } :=
  ⟨rfl, rfl, rfl, fun _ => rfl, fun h call hcall => h call (Nat.le_of_succ_le hcall), Nat.le_succ _⟩

/-- A new call that waits. -/
theorem quiet_call {p : Process} (hfresh : ∀ call, p.made ≤ call → p.phase call = none) {phase : Phase} (hnew : phase.server = none) :
    Quiet p { p.wait p.made phase with made := p.made + 1 } := by
  have hbound : p.boundServer p.made = none := by
    unfold Process.boundServer
    rw [hfresh p.made (le_refl _)]
    rfl
  refine ⟨rfl, rfl, rfl, boundServer_wait hbound hnew, fun h x hx => ?_, Nat.le_succ _⟩
  have hphase := phase_wait p p.made phase x
  have hx' : p.made < x := hx
  rw [if_neg (by omega), h x (by omega)] at hphase
  exact hphase

theorem phase_bound {p : Process} {call : ℕ} {phase : Phase} (hphase : p.phase call = some phase) (hnone : phase.server = none) :
    p.boundServer call = none := by
  unfold Process.boundServer
  rw [hphase]
  exact hnone

/-- What a quiet step reports: a start returns the record, and fails while there is none. -/
structure Reports (p : Process) (out : Option Outcome) : Prop where
  returned : ∀ call result, out = some (.returned call result) → ∃ r, p.running = some r ∧ r.result = result
  threw : ∀ call error, out = some (.threw call error) → p.running = none ∧ p.boundServer call = none

theorem reports_none (p : Process) : Reports p none := ⟨nofun, nofun⟩

theorem reports_threw {p : Process} {call : ℕ} {error : Str} (hrunning : p.running = none) (hbound : p.boundServer call = none) :
    Reports p (some (.threw call error)) := by
  refine ⟨nofun, ?_⟩
  rintro _ _ ⟨⟩
  exact ⟨hrunning, hbound⟩

theorem start_quiet {p : Process} (hfresh : ∀ call, p.made ≤ call → p.phase call = none) (opts : StartOptions) (root : Option Str) :
    Quiet p (p.startAwpIdeServer opts root).1 ∧ Reports p (p.startAwpIdeServer opts root).2 := by
  have hbound : p.boundServer p.made = none := by
    unfold Process.boundServer
    rw [hfresh p.made (le_refl _)]
    rfl
  unfold Process.startAwpIdeServer
  split
  · next r hrunning =>
    refine ⟨quiet_next p, ?_, nofun⟩
    rintro _ _ ⟨⟩
    exact ⟨r, hrunning, rfl⟩
  · next hrunning =>
    split
    · exact ⟨quiet_next p, reports_threw hrunning hbound⟩
    · exact ⟨quiet_next p, reports_threw hrunning hbound⟩
    · exact ⟨quiet_next p, reports_threw hrunning hbound⟩
    · exact ⟨quiet_call hfresh rfl, reports_none p⟩

theorem imported_quiet (p : Process) (call : ℕ) (token : Str) :
    Quiet p (p.step (.imported call token)).1 ∧ Reports p (p.step (.imported call token)).2 := by
  simp only [Process.step]
  split
  · next hphase => exact ⟨quiet_wait hphase rfl rfl, reports_none p⟩
  · next hphase => exact ⟨quiet_wait hphase rfl rfl, reports_none p⟩
  · exact ⟨quiet_refl p, reports_none p⟩

theorem reset_eq {p : Process} (h : p.running = none) : { p with running := none } = p := by
  rw [← h]

theorem failed_quiet {w : Watched} {call : ℕ} {error : Str} (h : w.alone (.failed call error) = true) :
    Quiet w.process (w.process.step (.failed call error)).1 ∧ Reports w.process (w.process.step (.failed call error)).2 := by
  simp only [Process.step]
  simp only [Watched.alone] at h
  split
  · next hphase =>
    rw [hphase] at h
    have hrunning := Option.isNone_iff_eq_none.mp h
    rw [reset_eq hrunning]
    exact ⟨quiet_finish hphase rfl, reports_threw hrunning (phase_bound hphase rfl)⟩
  · next hphase => exact ⟨quiet_wait hphase rfl rfl, reports_none _⟩
  · exact ⟨quiet_refl _, reports_none _⟩

theorem closed_quiet {w : Watched} {call : ℕ} (h : w.alone (.closed call) = true) :
    Quiet w.process (w.process.step (.closed call)).1 ∧ Reports w.process (w.process.step (.closed call)).2 := by
  simp only [Process.step]
  simp only [Watched.alone] at h
  split
  · next hphase => exact ⟨quiet_wait hphase rfl rfl, reports_none _⟩
  · next hphase =>
    rw [hphase] at h
    have hrunning := Option.isNone_iff_eq_none.mp h
    rw [reset_eq hrunning]
    exact ⟨quiet_finish hphase rfl, reports_threw hrunning (phase_bound hphase rfl)⟩
  · next hphase => exact ⟨quiet_wait hphase rfl rfl, reports_none _⟩
  · next hphase => exact ⟨quiet_finish hphase rfl, nofun, nofun⟩
  · exact ⟨quiet_refl _, reports_none _⟩

theorem Shape.length {p : Process} (h : Shape p) : p.servers.length ≤ 1 ∧ p.locks.length ≤ 1 := by
  cases h with
  | still running servers locks bound => simp [servers, locks]
  | bound http running servers locks bound => simp [servers, locks]
  | up r input running servers locks bound => simp [servers, locks]

/-- Without a record and a call in progress there is nothing. -/
theorem Shape.rests {p : Process} (h : Shape p) (hrunning : p.running = none) (hcalls : p.calls = []) : p.servers = [] ∧ p.locks = [] := by
  cases h with
  | still running servers locks bound => exact ⟨servers, locks⟩
  | bound http running servers locks bound =>
    have hhttp := bound http.call
    unfold Process.boundServer Process.phase at hhttp
    rw [hcalls, if_pos rfl] at hhttp
    cases hhttp
  | up r input running servers locks bound =>
    rw [hrunning] at running
    cases running

theorem Shape.cleared {p : Process} (h : Shape p) (hrunning : p.running = none) {call : ℕ} (hbound : p.boundServer call = none) :
    (∀ server ∈ p.servers, server.call ≠ call) ∧ ∀ lock ∈ p.locks, lock.call ≠ call := by
  cases h with
  | still running servers locks bound =>
    rw [servers, locks]
    exact ⟨nofun, nofun⟩
  | bound http running servers locks bound =>
    rw [servers, locks]
    refine ⟨fun server hserver => ?_, nofun⟩
    rw [List.mem_singleton] at hserver
    rintro rfl
    rw [bound, hserver, if_pos rfl] at hbound
    cases hbound
  | up r input running servers locks bound =>
    rw [hrunning] at running
    cases running

/-- The start whose server listens without a record. -/
theorem Shape.of_bound {p : Process} (h : Shape p) {call : ℕ} {http : HttpServer} (hbound : p.boundServer call = some http) :
    http.call = call ∧ p.running = none ∧ p.servers = [http] ∧ p.locks = [] ∧ ∀ x, x ≠ call → p.boundServer x = none := by
  cases h with
  | still running servers locks bound =>
    rw [bound] at hbound
    cases hbound
  | bound other running servers locks bound =>
    rw [bound] at hbound
    split at hbound
    · next hcall =>
      cases hbound
      refine ⟨hcall.symm, running, servers, locks, fun x hx => ?_⟩
      rw [bound, if_neg fun h => hx (h.trans hcall.symm)]
    · cases hbound
  | up r input running servers locks bound =>
    rw [bound] at hbound
    cases hbound

theorem writeLockFile_cases (call : ℕ) (input : IdeLockInput) {write : LockWrite} (h : ∀ error, write.fault ≠ some (.unfinished error))
    (locks : List LockFile) :
    (∃ error, writeLockFile call input write locks = (.error error, locks)) ∨
      ∃ lockId, writeLockFile call input write locks = (.ok lockId, locks ++ [⟨call, lockId, some input⟩]) := by
  unfold writeLockFile
  split
  · exact Or.inl ⟨_, rfl⟩
  · split
    · exact Or.inl ⟨_, rfl⟩
    · split
      · exact Or.inl ⟨_, rfl⟩
      · next hfault => exact absurd hfault (h _)
      · exact Or.inr ⟨_, rfl⟩

/-- A start whose server listens fails and closes it, or fills the record. -/
theorem register_cases (p : Process) (call : ℕ) (http : HttpServer) (desktopVersion token : Str) {write : LockWrite}
    (h : ∀ error, write.fault ≠ some (.unfinished error)) :
    (∃ error, p.register call http desktopVersion token write = ((p.close call).wait call (.failing 2 error), none)) ∨
      ∃ r input, r.http = http ∧ p.register call http desktopVersion token write =
        (Process.finish { p with running := some r, locks := p.locks ++ [⟨call, r.lockPath, some input⟩] } call,
          some (.returned call r.result)) := by
  unfold Process.register
  split
  · exact Or.inl ⟨_, rfl⟩
  · next url _ =>
    rcases writeLockFile_cases call ⟨http.host, http.port, token, url, desktopVersion⟩ h p.locks with ⟨error, hwrite⟩ | ⟨lockId, hwrite⟩
    · rw [hwrite]
      exact Or.inl ⟨error, rfl⟩
    · rw [hwrite]
      exact Or.inr ⟨⟨http, token, url, lockId⟩, _, rfl, rfl⟩

theorem close_bound {p : Process} {call : ℕ} {http : HttpServer} (hcall : http.call = call) (hservers : p.servers = [http]) :
    (p.close call).servers = [] := by
  unfold Process.close
  rw [hservers]
  simp [hcall]

theorem boundServer_failing {p : Process} {call : ℕ} (hothers : ∀ x, x ≠ call → p.boundServer x = none) (left : ℕ) (error : Str)
    (x : ℕ) : ((p.close call).wait call (.failing left error)).boundServer x = none := by
  unfold Process.boundServer
  rw [phase_wait]
  by_cases hx : x = call
  · rw [if_pos hx]
    rfl
  · rw [if_neg hx]
    exact hothers x hx

/-- The steps of a run keep the shape, and are as wanted. -/
structure Kept (w : Watched) (e : Event) : Prop where
  held : Held (w.step e).1
  idempotent : Idempotent w e

theorem Quiet.kept {w : Watched} {e : Event} (h : Held w) (hq : Quiet w.process (w.process.step e).1)
    (hr : Reports w.process (w.process.step e).2) (hstop : ∀ removed, e = .stop removed → w.process.running = none) : Kept w e := by
  have hshape := hq.shape h.shape
  have hstopped : (w.step e).1.stopped = true → w.process.running = none := by
    intro hstopped
    cases e with
    | start opts root => cases hstopped
    | stop removed => exact hstop removed rfl
    | imported call token => exact h.stopped hstopped
    | bound call port => exact h.stopped hstopped
    | listened call write => exact h.stopped hstopped
    | failed call error => exact h.stopped hstopped
    | closed call => exact h.stopped hstopped
  refine ⟨⟨hshape, hq.fresh h.fresh, ?_, ?_, fun hs => hq.running.trans (hstopped hs)⟩, ⟨hshape.length, ?_, ?_, ?_, ?_⟩⟩
  · intro server hserver
    exact lt_of_lt_of_le (h.made server (hq.servers ▸ hserver)) hq.made
  · intro result hresult
    have hrunning : (w.step e).1.process.running = w.process.running := hq.running
    rw [hrunning]
    simp only [Watched.step] at hresult
    split at hresult
    · cases hresult
    · next hout =>
      cases hresult
      exact hr.returned _ _ hout
    · exact h.since result hresult
  · intro call result hout earlier hearlier
    obtain ⟨r, hrunning, rfl⟩ := hr.returned call result hout
    obtain ⟨r', hrunning', rfl⟩ := h.since earlier hearlier
    rw [hrunning] at hrunning'
    cases hrunning'
    rfl
  · intro call error hout
    obtain ⟨hrunning, hbound⟩ := hr.threw call error hout
    rw [hq.servers, hq.locks]
    exact h.shape.cleared hrunning hbound
  · intro call _ _
    exact ⟨hq.running, by rw [hq.servers], by rw [hq.locks]⟩
  · intro hcalls hs
    exact hshape.rests (hq.running.trans (hstopped hs)) hcalls

theorem bound_kept {w : Watched} (h : Held w) {call port : ℕ} (ha : w.alone (.bound call port) = true) : Kept w (.bound call port) := by
  by_cases hphase : ∃ host requestedPort desktopVersion token, w.process.phase call = some (.listening host requestedPort desktopVersion token)
  · obtain ⟨host, requestedPort, desktopVersion, token, hphase⟩ := hphase
    simp only [Watched.alone, hphase, List.isEmpty_iff] at ha
    obtain ⟨hrunning, hlocks, hbound⟩ : w.process.running = none ∧ w.process.locks = [] ∧ ∀ x, w.process.boundServer x = none := by
      cases h.shape with
      | still running servers locks bound => exact ⟨running, locks, bound⟩
      | bound http running servers locks bound =>
        rw [ha] at servers
        cases servers
      | up r input running servers locks bound =>
        rw [ha] at servers
        cases servers
    let http : HttpServer := ⟨call, host, if requestedPort = 0 then port else requestedPort⟩
    have hstep : w.process.step (.bound call port) =
        (Process.wait { w.process with servers := w.process.servers ++ [http] } call (.bound http desktopVersion token), none) := by
      simp only [Process.step, hphase]
      rfl
    have hservers : (w.process.step (.bound call port)).1.servers = [http] := by
      rw [hstep]
      show w.process.servers ++ [http] = [http]
      rw [ha]
      rfl
    have hlocks' : (w.process.step (.bound call port)).1.locks = [] := by
      rw [hstep]
      exact hlocks
    have hrunning' : (w.process.step (.bound call port)).1.running = none := by
      rw [hstep]
      exact hrunning
    have hphase' : ∀ x, (w.process.step (.bound call port)).1.phase x =
        if x = call then some (.bound http desktopVersion token) else w.process.phase x := by
      intro x
      rw [hstep]
      exact phase_wait ..
    have hcall : call < w.process.made := by
      by_contra hge
      rw [h.fresh call (not_lt.mp hge)] at hphase
      cases hphase
    have hmade : (w.process.step (.bound call port)).1.made = w.process.made := by
      rw [hstep]
      rfl
    have hshape : Shape (w.process.step (.bound call port)).1 := by
      refine .bound http hrunning' hservers hlocks' fun x => ?_
      unfold Process.boundServer
      rw [hphase']
      by_cases hx : x = call
      · rw [if_pos hx, if_pos hx]
        rfl
      · rw [if_neg hx, if_neg hx]
        exact hbound x
    refine ⟨⟨hshape, fun x hx => ?_, ?_, fun result hresult => ?_, fun _ => hrunning'⟩, ⟨hshape.length, ?_, ?_, ?_, ?_⟩⟩
    · have hx' : w.process.made ≤ x := hmade ▸ hx
      exact (hphase' x).trans (by rw [if_neg (by omega), h.fresh x hx'])
    · show ∀ server ∈ (w.process.step (.bound call port)).1.servers, server.call < (w.process.step (.bound call port)).1.made
      rw [hservers, hmade]
      intro server hserver
      rw [List.mem_singleton] at hserver
      rw [hserver]
      exact hcall
    · simp only [Watched.step, hstep] at hresult
      obtain ⟨r, hr, -⟩ := h.since result hresult
      rw [hrunning] at hr
      cases hr
    · intro c result hout
      rw [hstep] at hout
      cases hout
    · intro c error hout
      rw [hstep] at hout
      cases hout
    · intro c hc _
      cases hc
      refine ⟨hrunning'.trans hrunning.symm, ?_, by rw [hlocks', hlocks]⟩
      rw [hservers, ha]
      simp [http]
    · intro hcalls _
      have hphase'' := hphase' call
      unfold Process.phase at hphase''
      rw [hcalls, if_pos rfl] at hphase''
      cases hphase''
  · have hstep : w.process.step (.bound call port) = (w.process, none) := by
      simp only [Process.step]
      split
      · next hlistening => exact absurd ⟨_, _, _, _, hlistening⟩ hphase
      · rfl
    exact Quiet.kept h (by rw [hstep]; exact quiet_refl _) (by rw [hstep]; exact reports_none _) nofun

theorem stop_kept {w : Watched} (h : Held w) {removed : Bool} (ha : w.alone (.stop removed) = true) : Kept w (.stop removed) := by
  cases h.shape with
  | still running servers locks bound =>
    have hstep : w.process.step (.stop removed) = ({ w.process with made := w.process.made + 1 }, some (.stopped w.process.made)) := by
      simp only [Process.step, Process.stopAwpIdeServer, running]
    exact Quiet.kept h (by rw [hstep]; exact quiet_next _) (by rw [hstep]; exact ⟨nofun, nofun⟩) fun _ _ => running
  | bound http running servers locks bound =>
    have hstep : w.process.step (.stop removed) = ({ w.process with made := w.process.made + 1 }, some (.stopped w.process.made)) := by
      simp only [Process.step, Process.stopAwpIdeServer, running]
    exact Quiet.kept h (by rw [hstep]; exact quiet_next _) (by rw [hstep]; exact ⟨nofun, nofun⟩) fun _ _ => running
  | up r input running servers locks bound =>
    have hremoved : removed = true := by
      simpa [Watched.alone, running] using ha
    have hstep : w.process.step (.stop removed) =
        (Process.close
          { w.process.wait w.process.made (.stopping 2) with
            running := none
            locks := deleteLockFile r.lockPath removed w.process.locks
            made := w.process.made + 1 }
          r.http.call, none) := by
      simp only [Process.step, Process.stopAwpIdeServer, running]
    have hservers : (w.process.step (.stop removed)).1.servers = [] := by
      rw [hstep]
      exact close_bound rfl servers
    have hlocks : (w.process.step (.stop removed)).1.locks = [] := by
      rw [hstep]
      show deleteLockFile r.lockPath removed w.process.locks = []
      rw [locks, hremoved]
      simp [deleteLockFile]
    have hrunning : (w.process.step (.stop removed)).1.running = none := by
      rw [hstep]
      rfl
    have hphase : ∀ x, (w.process.step (.stop removed)).1.phase x = if x = w.process.made then some (.stopping 2) else w.process.phase x := by
      intro x
      rw [hstep]
      exact phase_wait w.process _ _ x
    have hmade : (w.process.step (.stop removed)).1.made = w.process.made + 1 := by
      rw [hstep]
      rfl
    have hout : (w.process.step (.stop removed)).2 = none := by rw [hstep]
    have hshape : Shape (w.process.step (.stop removed)).1 := by
      refine .still hrunning hservers hlocks fun x => ?_
      unfold Process.boundServer
      rw [hphase]
      by_cases hx : x = w.process.made
      · rw [if_pos hx]
        rfl
      · rw [if_neg hx]
        exact bound x
    refine ⟨⟨hshape, fun x hx => ?_, ?_, nofun, fun _ => hrunning⟩, ⟨hshape.length, ?_, ?_, nofun, fun _ _ => ⟨hservers, hlocks⟩⟩⟩
    · have hx' : w.process.made + 1 ≤ x := hmade ▸ hx
      exact (hphase x).trans (by rw [if_neg (by omega), h.fresh x (by omega)])
    · show ∀ server ∈ (w.process.step (.stop removed)).1.servers, server.call < (w.process.step (.stop removed)).1.made
      rw [hservers]
      nofun
    · intro c result hreturned
      rw [hout] at hreturned
      cases hreturned
    · intro c error hthrew
      rw [hout] at hthrew
      cases hthrew

theorem listened_kept {w : Watched} (h : Held w) {call : ℕ} {write : LockWrite} (ha : w.alone (.listened call write) = true) :
    Kept w (.listened call write) := by
  by_cases hphase : ∃ http desktopVersion token, w.process.phase call = some (.bound http desktopVersion token)
  · obtain ⟨http, desktopVersion, token, hphase⟩ := hphase
    obtain ⟨hcall, hrunning, hservers, hlocks, hothers⟩ :=
      h.shape.of_bound (show w.process.boundServer call = some http by unfold Process.boundServer; rw [hphase]; rfl)
    have hregister : w.process.step (.listened call write) = w.process.register call http desktopVersion token write := by
      simp only [Process.step, hphase]
    simp only [Watched.alone, Bool.and_eq_true, Bool.or_eq_true, Bool.not_eq_true', Process.registers, hphase] at ha
    have hfault : ∀ error, write.fault ≠ some (.unfinished error) := by
      intro error hfault
      rw [hfault] at ha
      exact nomatch ha.2
    have hsince : ∀ result, result ∉ w.since := by
      intro result hresult
      obtain ⟨r, hr, -⟩ := h.since result hresult
      rw [hrunning] at hr
      cases hr
    have hmade : ∀ server ∈ [http], server.call < w.process.made := hservers ▸ h.made
    rcases register_cases w.process call http desktopVersion token hfault with ⟨error, hstep⟩ | ⟨r, input, hhttp, hstep⟩
    · rw [hstep] at hregister
      have hclosed := close_bound hcall hservers
      have hshape : Shape ((w.process.close call).wait call (.failing 2 error)) :=
        .still hrunning hclosed hlocks (boundServer_failing hothers 2 error)
      refine ⟨⟨?_, fun x hx => ?_, ?_, fun result hresult => ?_, fun _ => ?_⟩, ⟨?_, ?_, ?_, ?_, ?_⟩⟩
      · simp only [Watched.step, hregister]
        exact hshape
      · simp only [Watched.step, hregister] at hx ⊢
        rw [phase_wait, if_neg]
        · exact h.fresh x hx
        · have hlt := hmade http (List.mem_singleton_self _)
          have hx' : w.process.made ≤ x := hx
          omega
      · simp only [Watched.step, hregister]
        rw [show ((w.process.close call).wait call (.failing 2 error)).servers = [] from hclosed]
        nofun
      · simp only [Watched.step, hregister] at hresult
        exact absurd hresult (hsince result)
      · simp only [Watched.step, hregister]
        exact hrunning
      · rw [hregister]
        exact hshape.length
      · intro c result hout
        rw [hregister] at hout
        cases hout
      · intro c error hout
        rw [hregister] at hout
        cases hout
      · intro c hc _
        cases hc
        rw [hregister]
        refine ⟨rfl, ?_, rfl⟩
        rw [show ((w.process.close call).wait call (.failing 2 error)).servers = [] from hclosed, hservers]
        simp [hcall]
      · intro _ _
        rw [hregister]
        exact ⟨hclosed, hlocks⟩
    · have hstopped : w.stopped = false := by
        rw [hstep] at ha
        exact ha.1.resolve_left nofun
      rw [hstep] at hregister
      have hshape : Shape (Process.finish { w.process with
          running := some r, locks := w.process.locks ++ [⟨call, r.lockPath, some input⟩] } call) := by
        refine .up r input rfl ?_ ?_ fun x => ?_
        · rw [hhttp]
          exact hservers
        · show w.process.locks ++ [⟨call, r.lockPath, some input⟩] = [⟨r.http.call, r.lockPath, some input⟩]
          rw [hlocks, hhttp, hcall]
          rfl
        · unfold Process.boundServer
          rw [phase_finish]
          by_cases hx : x = call
          · rw [if_pos hx]
            rfl
          · rw [if_neg hx]
            exact hothers x hx
      refine ⟨⟨?_, fun x hx => ?_, ?_, fun result hresult => ?_, fun hs => ?_⟩, ⟨?_, ?_, ?_, ?_, ?_⟩⟩
      · simp only [Watched.step, hregister]
        exact hshape
      · simp only [Watched.step, hregister] at hx ⊢
        rw [phase_finish]
        split
        · rfl
        · exact h.fresh x hx
      · simp only [Watched.step, hregister]
        exact h.made
      · simp only [Watched.step, hregister] at hresult ⊢
        cases hresult
        exact ⟨r, rfl, rfl⟩
      · simp only [Watched.step] at hs
        rw [hstopped] at hs
        cases hs
      · rw [hregister]
        exact hshape.length
      · intro c result _ earlier hearlier
        exact absurd hearlier (hsince earlier)
      · intro c error hout
        rw [hregister] at hout
        cases hout
      · intro c hc hnot
        cases hc
        exact absurd (by rw [hregister]) (hnot r.result)
      · intro _ hs
        simp only [Watched.step] at hs
        rw [hstopped] at hs
        cases hs
  · have hstep : w.process.step (.listened call write) = (w.process, none) := by
      simp only [Process.step]
      split
      · next hbound => exact absurd ⟨_, _, _, hbound⟩ hphase
      · rfl
    exact Quiet.kept h (by rw [hstep]; exact quiet_refl _) (by rw [hstep]; exact reports_none _) nofun

theorem step_kept {w : Watched} {e : Event} (h : Held w) (ha : w.alone e = true) : Kept w e := by
  cases e with
  | start opts root => exact Quiet.kept h (start_quiet h.fresh opts root).1 (start_quiet h.fresh opts root).2 nofun
  | stop removed => exact stop_kept h ha
  | imported call token => exact Quiet.kept h (imported_quiet _ call token).1 (imported_quiet _ call token).2 nofun
  | bound call port => exact bound_kept h ha
  | listened call write => exact listened_kept h ha
  | failed call error => exact Quiet.kept h (failed_quiet ha).1 (failed_quiet ha).2 nofun
  | closed call => exact Quiet.kept h (closed_quiet ha).1 (closed_quiet ha).2 nofun

/-- In a run whose steps are all `alone` there is one server and one lock file at most, starts
return the same, a start that fails leaves nothing, and nothing is left after a stop. -/
theorem ide_server {is : List Event} (h : machine.Along (fun w e => w.alone e = true) watched is) :
    machine.Along Idempotent watched is :=
  Machine.Along.of_invariant machine (fun _ _ hheld ha => (step_kept hheld ha).held) (fun _ _ hheld ha => (step_kept hheld ha).idempotent)
    held_watched h

def sampleStart : Event := .start ⟨str "0.1.2", none, none⟩ none

/-- The steps of one start until its server listens. -/
def sampleBound (call port : ℕ) : List Event :=
  [.imported call (str "a"), .imported call (str "b"), .imported call (str "token"), .bound call port]

def sampleWrite : LockWrite := ⟨[str "00112233445566778899aabbccddeeff"], none⟩

def sampleResult : StartResult :=
  ⟨51001, str "token", str "http://127.0.0.1:51001/mcp", str "00112233445566778899aabbccddeeff"⟩

/-- A start, another one that finds the server, a stop, and a start whose port is not free. -/
def sampleRun : List Event :=
  sampleStart :: sampleBound 0 51001 ++ [.listened 0 sampleWrite, sampleStart, .stop true, .closed 2, .closed 2, sampleStart] ++
    [.imported 3 (str "a"), .imported 3 (str "b"), .imported 3 (str "token"), .failed 3 (str "EADDRINUSE"), .closed 3, .closed 3]

theorem sample_idempotent :
    machine.Along Idempotent watched sampleRun ∧
      (machine.trace watched sampleRun).reduceOption =
        [.returned 0 sampleResult, .returned 1 sampleResult, .stopped 2, .threw 3 (str "EADDRINUSE")] :=
  ⟨ide_server (by decide +kernel), by decide +kernel⟩

/-- Two starts of which the first fails; its last wait ends when the second has filled the record. -/
def sampleLate : List Event :=
  [sampleStart, sampleStart] ++ (sampleBound 0 51001).dropLast ++ [.failed 0 (str "EADDRINUSE"), .closed 0] ++
    sampleBound 1 51002 ++ [.listened 1 sampleWrite]

/-- Two starts make two servers, a stop during a start leaves its server, and a start that
fails late empties the record of another one. -/
theorem ide_server_fails :
    ¬ Idempotent (machine.run watched
        ([sampleStart, sampleStart] ++ sampleBound 0 51001 ++ [.listened 0 sampleWrite] ++ (sampleBound 1 51002).dropLast))
      (.bound 1 51002) ∧
    ¬ Idempotent (machine.run watched ([sampleStart, .stop true] ++ sampleBound 0 51001)) (.listened 0 sampleWrite) ∧
    ¬ Idempotent (machine.run watched sampleLate) (.closed 0) := by
  refine ⟨fun h => ?_, fun h => ?_, fun h => ?_⟩
  · exact absurd h.single.1 (by decide +kernel)
  · exact absurd (h.rests (by decide +kernel) (by decide +kernel)).1 (by decide +kernel)
  · have hout : ((machine.run watched sampleLate).process.step (.closed 0)).2 = some (.threw 0 (str "EADDRINUSE")) := by
      decide +kernel
    refine absurd (h.apart 0 rfl fun result hreturned => ?_).running (by decide +kernel)
    rw [hout] at hreturned
    cases hreturned

end AgentWorkflow.Desktop.IdeServer
