import AgentWorkflow.Lib.Calendar
import AgentWorkflow.Lib.Machine
import AgentWorkflow.Lib.Table

/-!
# Canary rollout (`rollout.py`)

The `agent_versions` table under `publish_version`, `evaluate_rollout` and
`operator_pin`. The metrics of a pass are arbitrary. Reading number `n` of the
clock returns `clock n`, and rows with equal timestamps come in any order. Rates
are of any ordered type that division and decimal literals exist for.
-/

namespace AgentWorkflow.ControlPlane.Rollout
open AgentWorkflow.Lib AgentWorkflow.Lib.Calendar

inductive Stage where
  | draft
  | canary1
  | canary10
  | canary50
  | stable
  | rolledBack
  | superseded
deriving DecidableEq, Repr

def Stage.text : Stage → String
  | .draft => "draft"
  | .canary1 => "canary-1"
  | .canary10 => "canary-10"
  | .canary50 => "canary-50"
  | .stable => "stable"
  | .rolledBack => "rolled-back"
  | .superseded => "superseded"

def Stage.isCanary : Stage → Bool
  | .canary1 | .canary10 | .canary50 => true
  | _ => false

/-- `_NEXT_STAGE` -/
def Stage.next : Stage → Option Stage
  | .canary1 => some .canary10
  | .canary10 => some .canary50
  | .canary50 => some .stable
  | _ => none

def minSamplesForPromote : ℕ := 20

structure VersionRow where
  id : ℕ
  version : Text
  stage : Stage
  publishedAt : UtcTime
  enteredStageAt : UtcTime
  downloadUrl : Text
  sigUrl : Text
  sha256 : Text
  minProtocol : ℤ
  notes : Text
deriving DecidableEq

inductive VersionEvent where
  | stageChange (toVer : Text) (newStage : Stage) (reason : Text)
  | operatorPin (toVer : Text) (reason : Text)
deriving DecidableEq

/-- `ticks` counts the clock readings made so far. -/
structure State where
  versions : List VersionRow
  lastId : ℕ
  events : List VersionEvent
  ticks : ℕ
deriving DecidableEq

def State.empty : State := { versions := [], lastId := 0, events := [], ticks := 0 }

/-- `tie` orders rows with equal timestamps, for each query anew; `fixed3` is the
format `.3f`. -/
structure Env (ρ : Type) where
  clock : ℕ → UtcTime
  tie : ℕ → ℕ → ℕ
  fixed3 : ρ → Text
  validateReleaseUrl : Text → Except String Unit

variable {ρ : Type}

/-! ### Table helpers -/

/-- `ORDER BY entered_stage_at DESC` -/
def newer (tie : ℕ → ℕ) (a b : VersionRow) : Prop :=
  b.enteredStageAt.isoformat < a.enteredStageAt.isoformat ∨
    (a.enteredStageAt.isoformat = b.enteredStageAt.isoformat ∧ tie a.id ≤ tie b.id)

instance (tie : ℕ → ℕ) : DecidableRel (newer tie) := fun _ _ => inferInstanceAs (Decidable (_ ∨ _))

def listVersions (env : Env ρ) (s : State) : List VersionRow :=
  Table.select (fun _ => true) (newer (env.tie s.ticks)) s.versions

def getVersion (s : State) (version : Text) : Option VersionRow :=
  Table.find VersionRow.version version s.versions

def enterStage (now : UtcTime) (newStage : Stage) (reason : Text) (r : VersionRow) : VersionRow :=
  { r with
    stage := newStage
    enteredStageAt := now
    notes := if reason = [] then r.notes
      else r.notes ++ '\n' :: ('[' :: now.isoformat ++ "] ".toList ++ reason) }

def setStage (env : Env ρ) (version : Text) (newStage : Stage) (reason : Text) (s : State) : State :=
  { s with
    versions := Table.update (fun r => decide (r.version = version))
      (enterStage (env.clock s.ticks) newStage reason) s.versions
    events := s.events ++ [.stageChange version newStage reason]
    ticks := s.ticks + 1 }

/-! ### `publish_version` -/

structure PublishArgs where
  version : Text
  downloadUrl : Text
  sigUrl : Text
  sha256 : Text
  minProtocol : ℤ
  initialStage : Stage
  notes : Text
deriving DecidableEq

/-- `[0-9A-Za-z][0-9A-Za-z._+-]{0,63}` -/
def canonicalVersion : Text → Bool
  | [] => false
  | c :: rest => c.isAlphanum && decide (rest.length ≤ 63) &&
      rest.all fun d => d.isAlphanum || d = '.' || d = '_' || d = '+' || d = '-'

def isHexDigit (c : Char) : Bool := c.isDigit || ('a' ≤ c && c ≤ 'f') || ('A' ≤ c && c ≤ 'F')

def checkArgs (env : Env ρ) (a : PublishArgs) : Except String Unit := do
  unless canonicalVersion a.version do
    throw "version must be a canonical 1-64 character identifier"
  unless a.sha256.length = 64 ∧ a.sha256.all isHexDigit do
    throw "sha256 must be exactly 64 hexadecimal characters"
  unless a.initialStage = .draft ∨ a.initialStage = .canary1 do
    throw "initial_stage is not recognized"
  if a.minProtocol < 1 then throw "min_protocol must be positive"
  env.validateReleaseUrl a.downloadUrl
  env.validateReleaseUrl a.sigUrl

/-- The columns that a published version must keep. -/
def VersionRow.metadata (r : VersionRow) : Text × Text × Text × ℤ × Text :=
  (r.downloadUrl, r.sigUrl, r.sha256, r.minProtocol, r.notes)

def PublishArgs.metadata (a : PublishArgs) : Text × Text × Text × ℤ × Text :=
  (a.downloadUrl, a.sigUrl, a.sha256.map Char.toLower, a.minProtocol, a.notes)

def publishedRow (a : PublishArgs) (id : ℕ) (now : UtcTime) : VersionRow :=
  { id := id, version := a.version, stage := a.initialStage, publishedAt := now, enteredStageAt := now,
    downloadUrl := a.downloadUrl, sigUrl := a.sigUrl, sha256 := a.sha256.map Char.toLower,
    minProtocol := a.minProtocol, notes := a.notes }

/-- sqlite binds integers below `2 ^ 63`. -/
def maxSqlInt : ℤ := 9223372036854775807

def publishVersion (env : Env ρ) (a : PublishArgs) (s : State) : Except String VersionRow × State :=
  match checkArgs env a with
  | .error e => (.error e, s)
  | .ok () =>
    let now := env.clock s.ticks
    let s' := { s with ticks := s.ticks + 1 }
    match getVersion s a.version with
    | some existing =>
      if a.metadata ≠ existing.metadata then (.error "published version metadata is immutable", s')
      else (.ok existing, s')
    | none =>
      if a.minProtocol > maxSqlInt then (.error "Python int too large to convert to SQLite INTEGER", s')
      else
        let row := publishedRow a (s.lastId + 1) now
        (.ok row, { s' with versions := s.versions ++ [row], lastId := s.lastId + 1 })

/-! ### `is_green` -/

structure VersionMetrics (ρ : Type) where
  version : Text
  samples : ℕ
  errorRate : ρ
  connectSuccess : ρ
  taskSuccess : ρ
  upgradeFailRate : ρ
  baselineErrorRate : ρ

def decimal (n : ℕ) : Text := (toString n).toList

section Evaluate
variable [Div ρ] [LT ρ] [DecidableLT ρ] [OfScientific ρ]

def isGreen (env : Env ρ) (m : VersionMetrics ρ) : Bool × Text :=
  if m.samples < minSamplesForPromote then
    (false, "insufficient samples (".toList ++ decimal m.samples ++ " < ".toList ++
      decimal minSamplesForPromote ++ ")".toList)
  else
    let base : ρ := if m.baselineErrorRate < 1e-6 then 1e-6 else m.baselineErrorRate
    if 5.0 < m.errorRate / base then
      (false, "error_rate ".toList ++ env.fixed3 m.errorRate ++ " > 5.0x baseline (".toList ++
        env.fixed3 base ++ ")".toList)
    else if m.connectSuccess < 0.95 then
      (false, "connect_success ".toList ++ env.fixed3 m.connectSuccess ++ " < 0.95".toList)
    else if m.taskSuccess < 0.90 then
      (false, "task_success ".toList ++ env.fixed3 m.taskSuccess ++ " < 0.9".toList)
    else if 0.01 < m.upgradeFailRate then
      (false, "upgrade_fail_rate ".toList ++ env.fixed3 m.upgradeFailRate ++ " > 0.01".toList)
    else (true, [])

/-! ### `evaluate_rollout` -/

/-- `(now - entered)` in microseconds -/
def dwellMicros (now entered : UtcTime) : ℤ := now.micros - entered.micros

/-- The format `.0f` of a number of seconds given in microseconds. -/
def fixed0 (micros : ℤ) : Text :=
  let q := micros / 1000000
  let r := micros % 1000000
  let n := if r < 500000 ∨ (r = 500000 ∧ q % 2 = 0) then q else q + 1
  if n = 0 ∧ micros < 0 then "-0".toList else (toString n).toList

inductive Action (ρ : Type) where
  | rollback (version : Text) (reason : Text) (metrics : VersionMetrics ρ)
  | promote (version : Text) (fromStage toStage : Stage) (metrics : VersionMetrics ρ)

def restorePrevStable (env : Env ρ) (failedVersion : Text) (s : State) : State :=
  let rows := Table.select
    (fun r => (r.stage = .stable || r.stage = .superseded) && decide (r.version ≠ failedVersion))
    (newer (env.tie s.ticks)) s.versions
  match rows.head? with
  | none => s
  | some v =>
    if v.stage ≠ .stable then
      setStage env v.version .stable ("restore after rollback of ".toList ++ failedVersion) s
    else s

def supersedeRow (newStable : Text) (r : VersionRow) : VersionRow :=
  if r.stage = .stable ∧ r.version ≠ newStable then { r with stage := .superseded } else r

def supersedePreviousStable (newStable : Text) (s : State) : State :=
  { s with versions := s.versions.map (supersedeRow newStable) }

/-- What one pass is given: its `now`, its `dwell_seconds` and the metrics it computes. -/
structure Pass (ρ : Type) where
  now : UtcTime
  dwellSeconds : ℤ
  baseline : ρ
  metrics : Text → VersionMetrics ρ

def Pass.measured (p : Pass ρ) (version : Text) : VersionMetrics ρ :=
  { p.metrics version with baselineErrorRate := p.baseline }

def Pass.red (env : Env ρ) (p : Pass ρ) (v : VersionRow) : Bool :=
  !(isGreen env (p.measured v.version)).1 &&
    decide (minSamplesForPromote ≤ (p.measured v.version).samples)

def Pass.due (env : Env ρ) (p : Pass ρ) (v : VersionRow) : Bool :=
  (isGreen env (p.measured v.version)).1 &&
    decide (p.dwellSeconds * 1000000 ≤ dwellMicros p.now v.enteredStageAt)

def rollBack (env : Env ρ) (p : Pass ρ) (v : VersionRow) (s : State) : State :=
  restorePrevStable env v.version
    (setStage env v.version .rolledBack
      ("auto rollback: ".toList ++ (isGreen env (p.measured v.version)).2) s)

def promote (env : Env ρ) (p : Pass ρ) (v : VersionRow) (nxt : Stage) (s : State) : State :=
  let s' := setStage env v.version nxt
    ("auto promote from ".toList ++ v.stage.text.toList ++ " (dwell ".toList ++
      fixed0 (dwellMicros p.now v.enteredStageAt) ++ "s)".toList) s
  if nxt = .stable then supersedePreviousStable v.version s' else s'

def evaluateOne (env : Env ρ) (p : Pass ρ) (acc : State × List (Action ρ)) (v : VersionRow) :
    State × List (Action ρ) :=
  if !v.stage.isCanary then acc
  else
    let m := p.measured v.version
    if p.red env v then
      (rollBack env p v acc.1, acc.2 ++ [.rollback v.version (isGreen env m).2 m])
    else if p.due env v then
      match v.stage.next with
      | none => acc
      | some nxt => (promote env p v nxt acc.1, acc.2 ++ [.promote v.version v.stage nxt m])
    else acc

def evaluateRollout (env : Env ρ) (p : Pass ρ) (s : State) : List (Action ρ) × State :=
  let r := (listVersions env s).foldl (evaluateOne env p) (s, [])
  (r.2, r.1)

/-! ### `operator_pin` -/

def pinCanary (env : Env ρ) (reason : Text) (s : State) (v : VersionRow) : State :=
  if v.stage.isCanary then
    setStage env v.version .rolledBack ("Operator pin override: ".toList ++ reason) s
  else s

def operatorPin (env : Env ρ) (version reason : Text) (s : State) : Except String VersionRow × State :=
  match getVersion s version with
  | none => (.error ("unknown version: " ++ String.ofList version), s)
  | some existing =>
    let s₁ := (listVersions env s).foldl (pinCanary env reason) s
    let s₂ := if existing.stage ≠ .stable then
        setStage env version .stable ("Operator pin: ".toList ++ reason) s₁
      else s₁
    let s₃ := supersedePreviousStable version s₂
    let s₄ := { s₃ with events := s₃.events ++ [.operatorPin version reason] }
    match getVersion s₄ version with
    | none => (.error "pinned version is missing", s₄)
    | some row => (.ok row, s₄)

/-! ### The machine -/

/-- A pass without `now` reads the clock first. -/
inductive Op (ρ : Type) where
  | publish (args : PublishArgs)
  | evaluate (now : Option UtcTime) (dwellSeconds : ℤ) (baseline : ρ) (metrics : Text → VersionMetrics ρ)
  | pin (version reason : Text)

inductive Reply (ρ : Type) where
  | published (r : Except String VersionRow)
  | evaluated (actions : List (Action ρ))
  | pinned (r : Except String VersionRow)

/-- The pass an `evaluate` call runs, and the state it starts from. -/
def startPass (env : Env ρ) (now : Option UtcTime) (dwellSeconds : ℤ) (baseline : ρ)
    (metrics : Text → VersionMetrics ρ) (s : State) : Pass ρ × State :=
  match now with
  | some t => (⟨t, dwellSeconds, baseline, metrics⟩, s)
  | none => (⟨env.clock s.ticks, dwellSeconds, baseline, metrics⟩, { s with ticks := s.ticks + 1 })

def step (env : Env ρ) (s : State) : Op ρ → State × Reply ρ
  | .publish a =>
    let r := publishVersion env a s
    (r.2, .published r.1)
  | .evaluate now dwellSeconds baseline metrics =>
    let start := startPass env now dwellSeconds baseline metrics s
    let r := evaluateRollout env start.1 start.2
    (r.2, .evaluated r.1)
  | .pin version reason =>
    let r := operatorPin env version reason s
    (r.2, .pinned r.1)

def machine (env : Env ρ) : Machine State (Op ρ) (Reply ρ) := ⟨step env⟩

end Evaluate

end AgentWorkflow.ControlPlane.Rollout
