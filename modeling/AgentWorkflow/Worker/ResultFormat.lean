import AgentWorkflow.ControlPlane.Tasks
import AgentWorkflow.Lib.PyText

/-!
# The format of a task result (`cloud_client.py`, `routes/tasks.py`)

The worker checks a result with `_validate_result_payload` before it posts or
caches it; the control plane checks the posted body with the pydantic model
`TaskResultRequest`. Both read the same JSON object.
-/

namespace AgentWorkflow.Worker
open AgentWorkflow.Lib AgentWorkflow.Lib.PyStr

abbrev Value := Json CodePoint
abbrev Dict := List (PyStr × Value)

/-! ### The worker -/

inductive PyError where
  | valueError (message : String)
  | unicodeEncodeError
  | typeError
  | overflowError
  | fileExistsError (message : String)
  | permissionError (message : String)
  | runtimeError (message : String)
deriving DecidableEq

def hexDigits (n : ℕ) : Pattern := List.replicate n isHexDigit

/-- `_SAFE_ATTEMPT_ID`, which is also the pattern of the control plane. -/
def safeAttemptId : Pattern :=
  hexDigits 8 ++ (literal "-" ++ (hexDigits 4 ++ (literal "-4" ++ (hexDigits 3 ++ (literal "-" ++
    (oneOf "89ab" :: (hexDigits 3 ++ (literal "-" ++ hexDigits 12))))))))

def maxOfflineLogBytes : ℕ := 1024 * 1024

def resultKeys : List PyStr := ["attempt_id", "status", "output", "logs", "duration_s"].map ofString

def checkAttemptId : Value → Except PyError Unit
  | .str s => if fullmatch safeAttemptId s then .ok () else .error (.valueError "offline result attempt_id is invalid")
  | _ => .error (.valueError "offline result attempt_id is invalid")

/-- Lists and dictionaries cannot be looked up in a set. -/
def checkStatus : Value → Except PyError Unit
  | .str s =>
    if s = ofString "success" ∨ s = ofString "failed" then .ok ()
    else .error (.valueError "offline result status is invalid")
  | .arr _ | .obj _ => .error .typeError
  | _ => .error (.valueError "offline result status is invalid")

def checkOutput : Value → Except PyError Unit
  | .obj _ => .ok ()
  | _ => .error (.valueError "offline result output must be an object")

def checkLogs : Value → Except PyError Unit
  | .str s =>
    match encode s with
    | none => .error .unicodeEncodeError
    | some b =>
      if maxOfflineLogBytes < b.length then .error (.valueError "offline result logs exceed their limit")
      else .ok ()
  | _ => .error (.valueError "offline result logs exceed their limit")

/-- The range checks on `float(duration)`. -/
def checkSeconds (x : PyFloat) : Except PyError Unit :=
  if !x.isfinite || x.lt (.finite 0) || (PyFloat.finite 31536000).lt x then
    .error (.valueError "offline result duration is invalid")
  else .ok ()

def checkDuration : Value → Except PyError Unit
  | .int n =>
    match PyFloat.ofInt n with
    | none => .error .overflowError
    | some q => checkSeconds (.finite q)
  | .float x => checkSeconds x
  | _ => .error (.valueError "offline result duration is invalid")

def validateResultPayload : Value → Except PyError Dict
  | .obj d =>
    if d.all (fun e => decide (e.1 ∈ resultKeys)) then
      match Json.get (ofString "attempt_id") d, Json.get (ofString "status") d, Json.get (ofString "output") d,
        Json.get (ofString "logs") d, Json.get (ofString "duration_s") d with
      | some attemptId, some status, some output, some logs, some duration => do
        checkAttemptId attemptId
        checkStatus status
        checkOutput output
        checkLogs logs
        checkDuration duration
        return d
      | _, _, _, _, _ => .error (.valueError "offline result payload has an invalid schema")
    else .error (.valueError "offline result payload has an invalid schema")
  | _ => .error (.valueError "offline result payload has an invalid schema")

/-- The payload `report_result` builds from the result of a task. -/
def reportPayload (attemptId : PyStr) (result : Dict) : Value :=
  .obj [(ofString "attempt_id", .str attemptId),
    (ofString "status",
      match Json.get (ofString "status") result with
      | some (.str s) => .str (if s = ofString "success" then ofString "success" else ofString "failed")
      | _ => .str (ofString "failed")),
    (ofString "output", (Json.get (ofString "output") result).getD (.obj [])),
    (ofString "logs", (Json.get (ofString "log_tail") result).getD (.str [])),
    (ofString "duration_s", (Json.get (ofString "elapsed") result).getD (.int 0))]

/-! ### The control plane -/

inductive Loc where
  | body
  | attemptId
  | status
  | output
  | logs
  | durationS
deriving DecidableEq

inductive ErrorType where
  | modelType
  | missing
  | stringType
  | stringUnicode
  | stringTooShort
  | stringTooLong
  | stringPatternMismatch
  | literalError
  | dictType
  | floatType
  | floatParsing
  | greaterThanEqual
deriving DecidableEq

structure FieldError where
  loc : Loc
  type : ErrorType
deriving DecidableEq

/-- What pydantic makes of a text, and of `nan ≥ 0`, where a float is asked for. -/
structure Pydantic where
  parseFloat : PyStr → Option PyFloat
  nanIsGe : Bool

/-- A validated `TaskResultRequest`. -/
structure TaskResult where
  attemptId : PyStr
  status : ControlPlane.ResultStatus
  output : Dict
  logs : PyStr
  durationS : PyFloat

/-- A constrained `str` must have a UTF-8 form. -/
def strField (minLength maxLength : ℕ) (pattern : Option Pattern) : Value → Except ErrorType PyStr
  | .str s =>
    if encode s = none then .error .stringUnicode
    else if s.length < minLength then .error .stringTooShort
    else if maxLength < s.length then .error .stringTooLong
    else if pattern.any fun p => !fullmatch p s then .error .stringPatternMismatch
    else .ok s
  | _ => .error .stringType

def statusField : Value → Except ErrorType ControlPlane.ResultStatus
  | .str s =>
    if s = ofString "success" then .ok .success
    else if s = ofString "failed" then .ok .failed
    else if s = ofString "error" then .ok .error
    else if s = ofString "cancelled" then .ok .cancelled
    else .error .literalError
  | _ => .error .literalError

def dictField : Value → Except ErrorType Dict
  | .obj d => .ok d
  | _ => .error .dictType

def floatField (P : Pydantic) : Value → Except ErrorType PyFloat
  | .float x => .ok x
  | .int n =>
    match PyFloat.ofInt n with
    | none => .error .floatType
    | some q => .ok (.finite q)
  | .bool b => .ok (.finite (if b then 1 else 0))
  | .str s =>
    match P.parseFloat s with
    | none => .error .floatParsing
    | some x => .ok x
  | _ => .error .floatType

def nonnegative (P : Pydantic) (x : PyFloat) : Except ErrorType PyFloat :=
  if x.lt (.finite 0) ∨ x = .nan ∧ P.nanIsGe = false then .error .greaterThanEqual else .ok x

def required {α : Type} (validate : Value → Except ErrorType α) : Option Value → Except ErrorType α
  | none => .error .missing
  | some v => validate v

/-- A default is not validated. -/
def defaulted {α : Type} (default : α) (validate : Value → Except ErrorType α) : Option Value → Except ErrorType α
  | none => .ok default
  | some v => validate v

def errorAt {α : Type} (loc : Loc) : Except ErrorType α → List FieldError
  | .ok _ => []
  | .error type => [⟨loc, type⟩]

/-- Every field is validated and the errors are collected in field order. -/
def taskResultRequest (P : Pydantic) : Value → Except (List FieldError) TaskResult
  | .obj d =>
    let attemptId := required (strField 36 36 (some safeAttemptId)) (Json.get (ofString "attempt_id") d)
    let status := required statusField (Json.get (ofString "status") d)
    let output := defaulted [] dictField (Json.get (ofString "output") d)
    let logs := defaulted [] (strField 0 1000000 none) (Json.get (ofString "logs") d)
    let durationS := defaulted (.finite 0) (fun v => floatField P v >>= nonnegative P) (Json.get (ofString "duration_s") d)
    match attemptId, status, output, logs, durationS with
    | .ok attemptId, .ok status, .ok output, .ok logs, .ok durationS =>
      .ok ⟨attemptId, status, output, logs, durationS⟩
    | attemptId, status, output, logs, durationS =>
      .error (errorAt .attemptId attemptId ++ errorAt .status status ++ errorAt .output output ++
        errorAt .logs logs ++ errorAt .durationS durationS)
  | _ => .error [⟨.body, .modelType⟩]

/-! ### What the worker accepts -/

theorem safeAttemptId_ascii : Ascii safeAttemptId := by
  have hhex : ∀ n, Ascii (hexDigits n) := Ascii.replicate (oneOf_ascii (by decide +kernel))
  have hdash : Ascii (literal "-") := ascii_literal (by decide +kernel)
  refine (hhex 8).append (hdash.append ((hhex 4).append ((ascii_literal (by decide +kernel)).append ?_)))
  refine (hhex 3).append (hdash.append (Ascii.cons (oneOf_ascii (by decide +kernel)) ?_))
  exact (hhex 3).append (hdash.append (hhex 12))

theorem checkAttemptId_ok {v : Value} (h : checkAttemptId v = .ok ()) :
    ∃ s, v = .str s ∧ fullmatch safeAttemptId s = true := by
  cases v with
  | str s =>
    simp only [checkAttemptId] at h
    split_ifs at h with hs
    exact ⟨s, rfl, hs⟩
  | _ => cases h

theorem checkStatus_ok {v : Value} (h : checkStatus v = .ok ()) :
    v = .str (ofString "success") ∨ v = .str (ofString "failed") := by
  cases v with
  | str s =>
    simp only [checkStatus] at h
    split_ifs at h with hs
    rcases hs with rfl | rfl
    · exact Or.inl rfl
    · exact Or.inr rfl
  | _ => cases h

theorem checkOutput_ok {v : Value} (h : checkOutput v = .ok ()) : ∃ d, v = .obj d := by
  cases v with
  | obj d => exact ⟨d, rfl⟩
  | _ => cases h

theorem checkLogs_ok {v : Value} (h : checkLogs v = .ok ()) :
    ∃ s b, v = .str s ∧ encode s = some b ∧ b.length ≤ maxOfflineLogBytes := by
  cases v with
  | str s =>
    simp only [checkLogs] at h
    cases hb : encode s with
    | none =>
      rw [hb] at h
      cases h
    | some b =>
      rw [hb] at h
      dsimp only at h
      split_ifs at h with hlen
      exact ⟨s, b, rfl, hb, Nat.le_of_not_lt hlen⟩
  | _ => cases h

theorem checkSeconds_ok {x : PyFloat} (h : checkSeconds x = .ok ()) : x.lt (.finite 0) = false ∧ x ≠ .nan := by
  unfold checkSeconds at h
  split_ifs at h with hx
  simp only [Bool.or_eq_true, not_or, Bool.not_eq_true] at hx
  refine ⟨hx.1.2, ?_⟩
  rintro rfl
  simp [PyFloat.isfinite] at hx

/-- The seconds of an accepted duration are what pydantic reads. -/
theorem checkDuration_ok (P : Pydantic) {v : Value} (h : checkDuration v = .ok ()) :
    ∃ x, (floatField P v >>= nonnegative P) = .ok x := by
  have hread : ∃ x, floatField P v = .ok x ∧ checkSeconds x = .ok () := by
    cases v with
    | int n =>
      simp only [checkDuration] at h
      simp only [floatField]
      cases hn : PyFloat.ofInt n with
      | none =>
        rw [hn] at h
        cases h
      | some q =>
        rw [hn] at h
        exact ⟨_, rfl, h⟩
    | float x => exact ⟨x, rfl, h⟩
    | _ => cases h
  obtain ⟨x, hx, hsec⟩ := hread
  obtain ⟨hlt, hnan⟩ := checkSeconds_ok hsec
  refine ⟨x, ?_⟩
  rw [hx]
  show nonnegative P x = .ok x
  simp [nonnegative, hlt, hnan]

/-- The fields of an accepted payload, with the properties that were checked. -/
structure Accepted (d : Dict) (attemptId status logs : PyStr) (output : Dict) (duration : Value) : Prop where
  hasAttemptId : Json.get (ofString "attempt_id") d = some (.str attemptId)
  safe : fullmatch safeAttemptId attemptId = true
  hasStatus : Json.get (ofString "status") d = some (.str status)
  terminal : status = ofString "success" ∨ status = ofString "failed"
  hasOutput : Json.get (ofString "output") d = some (.obj output)
  hasLogs : Json.get (ofString "logs") d = some (.str logs)
  size : ∃ b, encode logs = some b ∧ b.length ≤ maxOfflineLogBytes
  hasDuration : Json.get (ofString "duration_s") d = some duration
  seconds : checkDuration duration = .ok ()

theorem bind_ok {ε α β : Type} {x : Except ε α} {f : α → Except ε β} {b : β} (h : (x >>= f) = .ok b) :
    ∃ a, x = .ok a ∧ f a = .ok b := by
  cases x with
  | error e => cases h
  | ok a => exact ⟨a, rfl, h⟩

theorem validateResultPayload_ok {v : Value} {d : Dict} (h : validateResultPayload v = .ok d) :
    v = .obj d ∧ ∃ attemptId status logs output duration, Accepted d attemptId status logs output duration := by
  cases v with
  | obj e =>
    simp only [validateResultPayload] at h
    split_ifs at h with hkeys
    split at h
    next vattempt vstatus voutput vlogs vduration hattempt hstatus houtput hlogs hduration =>
      obtain ⟨_, h1, h⟩ := bind_ok h
      obtain ⟨_, h2, h⟩ := bind_ok h
      obtain ⟨_, h3, h⟩ := bind_ok h
      obtain ⟨_, h4, h⟩ := bind_ok h
      obtain ⟨_, h5, h⟩ := bind_ok h
      cases h
      obtain ⟨attemptId, rfl, hsafe⟩ := checkAttemptId_ok h1
      obtain ⟨output, rfl⟩ := checkOutput_ok h3
      obtain ⟨logs, b, rfl, hb, hlen⟩ := checkLogs_ok h4
      refine ⟨rfl, attemptId, ?_⟩
      rcases checkStatus_ok h2 with rfl | rfl
      · exact ⟨_, logs, output, vduration,
          ⟨hattempt, hsafe, hstatus, Or.inl rfl, houtput, hlogs, ⟨b, hb, hlen⟩, hduration, h5⟩⟩
      · exact ⟨_, logs, output, vduration,
          ⟨hattempt, hsafe, hstatus, Or.inr rfl, houtput, hlogs, ⟨b, hb, hlen⟩, hduration, h5⟩⟩
    next => cases h
  | _ => cases h

/-! ### What the control plane makes of it -/

theorem strField_safe {s : PyStr} (h : fullmatch safeAttemptId s = true) :
    strField 36 36 (some safeAttemptId) (.str s) = .ok s := by
  have hlen : s.length = 36 := (fullmatch_length h).trans (by decide +kernel)
  have henc := encode_ascii (fullmatch_ascii safeAttemptId_ascii h)
  simp [strField, henc, hlen, h]

/-- The body is accepted, or its logs are the one thing wrong with it. -/
theorem Accepted.outcome (P : Pydantic) {d output : Dict} {attemptId status logs : PyStr} {duration : Value}
    (h : Accepted d attemptId status logs output duration) :
    (logs.length ≤ 1000000 ∧ ∃ s x, taskResultRequest P (.obj d) = .ok ⟨attemptId, s, output, logs, x⟩) ∨
    (1000000 < logs.length ∧ taskResultRequest P (.obj d) = .error [⟨.logs, .stringTooLong⟩]) := by
  obtain ⟨b, hb, -⟩ := h.size
  obtain ⟨x, hx⟩ := checkDuration_ok P h.seconds
  have hstatus : ∃ s, statusField (.str status) = .ok s := by
    rcases h.terminal with rfl | rfl
    · exact ⟨.success, by decide⟩
    · exact ⟨.failed, by decide⟩
  obtain ⟨s, hs⟩ := hstatus
  unfold taskResultRequest
  simp only [h.hasAttemptId, h.hasStatus, h.hasOutput, h.hasLogs, h.hasDuration, required, defaulted, dictField,
    strField_safe h.safe, hs, hx]
  rcases Nat.lt_or_ge 1000000 logs.length with hlong | hshort
  · right
    have hlogs : strField 0 1000000 none (.str logs) = .error .stringTooLong := by
      simp [strField, hb, hlong]
    simp [hlogs, hlong, errorAt]
  · left
    have hlogs : strField 0 1000000 none (.str logs) = .ok logs := by
      simp [strField, hb, hshort]
    exact ⟨hshort, s, x, by rw [hlogs]⟩

/-- A payload the worker accepts is accepted by the control plane exactly when
its logs have at most 1,000,000 characters. -/
theorem result_format_agrees_iff (P : Pydantic) (payload : Value) (d : Dict)
    (h : validateResultPayload payload = .ok d) :
    (∃ body, taskResultRequest P payload = .ok body) ↔
      ∀ logs, Json.get (ofString "logs") d = some (.str logs) → logs.length ≤ 1000000 := by
  obtain ⟨rfl, attemptId, status, logs, output, duration, hd⟩ := validateResultPayload_ok h
  rcases hd.outcome P with ⟨hshort, s, x, hok⟩ | ⟨hlong, herr⟩
  · refine ⟨fun _ logs' hlogs => ?_, fun _ => ⟨_, hok⟩⟩
    rw [hd.hasLogs] at hlogs
    cases hlogs
    exact hshort
  · constructor
    · rintro ⟨body, hbody⟩
      rw [herr] at hbody
      cases hbody
    · intro hall
      have hshort := hall logs hd.hasLogs
      omega

def sampleAttempt : PyStr := ofString "0f8fad5b-d9cb-469f-a165-70867728950e"

/-- A task that succeeded after a second and printed `log`. -/
def sampleResult (log : PyStr) : Dict :=
  [(ofString "status", .str (ofString "success")), (ofString "elapsed", .float (.finite 1)),
    (ofString "log_tail", .str log), (ofString "output", .obj [])]

def sampleDict (log : PyStr) : Dict :=
  [(ofString "attempt_id", .str sampleAttempt), (ofString "status", .str (ofString "success")),
    (ofString "output", .obj []), (ofString "logs", .str log), (ofString "duration_s", .float (.finite 1))]

def samplePydantic : Pydantic := ⟨fun _ => none, false⟩

theorem sampleDict_accepted {log : PyStr} {b : List UInt8} (hb : encode log = some b)
    (hlen : b.length ≤ maxOfflineLogBytes) :
    validateResultPayload (reportPayload sampleAttempt (sampleResult log)) = .ok (sampleDict log) := by
  have hattempt : checkAttemptId (.str sampleAttempt) = .ok () := by decide +kernel
  have hlogs : checkLogs (.str log) = .ok () := by
    simp [checkLogs, hb, hlen]
  have hduration : checkDuration (.float (.finite 1)) = .ok () := by decide +kernel
  show (do
    checkAttemptId (.str sampleAttempt)
    checkStatus (.str (ofString "success"))
    checkOutput (.obj [])
    checkLogs (.str log)
    checkDuration (.float (.finite 1))
    return sampleDict log) = _
  rw [hattempt, hlogs, hduration]
  rfl

theorem result_format_agrees_iff_sample :
    (∃ body, taskResultRequest samplePydantic (reportPayload sampleAttempt (sampleResult [])) = .ok body) ↔
      ∀ logs, Json.get (ofString "logs") (sampleDict []) = some (.str logs) → logs.length ≤ 1000000 :=
  result_format_agrees_iff samplePydantic _ _ (sampleDict_accepted rfl (by decide))

/-- One character more than the control plane takes. -/
def longLog : PyStr := List.replicate 1000001 97

/-- A successful task whose log is within the limit of the worker and of the
wrong length for the control plane. -/
theorem result_of_long_log_rejected :
    validateResultPayload (reportPayload sampleAttempt (sampleResult longLog)) = .ok (sampleDict longLog) ∧
      taskResultRequest samplePydantic (reportPayload sampleAttempt (sampleResult longLog)) =
        .error [⟨.logs, .stringTooLong⟩] := by
  have hascii : ∀ c ∈ longLog, c.val < 0x80 := by
    intro c hc
    rw [List.eq_of_mem_replicate hc]
    decide
  have hlen : longLog.length = 1000001 := List.length_replicate
  have hok := sampleDict_accepted (encode_ascii hascii) (by rw [List.length_map, hlen]; decide)
  refine ⟨hok, ?_⟩
  obtain ⟨-, attemptId, status, logs, output, duration, hd⟩ := validateResultPayload_ok hok
  have hlogs : logs = longLog := by
    have hget : Json.get (ofString "logs") (sampleDict longLog) = some (.str longLog) := rfl
    rw [hd.hasLogs] at hget
    cases hget
    rfl
  rcases hd.outcome samplePydantic with ⟨hshort, -⟩ | ⟨-, herr⟩
  · rw [hlogs, hlen] at hshort
    omega
  · exact herr

end AgentWorkflow.Worker
