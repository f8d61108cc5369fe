import AgentWorkflow.VmAgent.QueueLifecycle

/-!
# The queueing sink (`internal/runner/queueing_sink.go`)

`SendComplete` and `SendError` try the online sink and fall back to the queue.
`json.Marshal` is a parameter: it maps the value the sink builds to bytes, or
fails on a value that has no JSON form.
-/

namespace AgentWorkflow.VmAgent
open AgentWorkflow.Lib

/-- Bytes of an ASCII literal. -/
def ascii (s : String) : Bytes := s.toList.map fun c => c.toNat.toUInt8

/-! ### Payloads -/

/-- A Go value as `json.Marshal` sees it; a `float64` is its bit pattern and
`other` a value without JSON form, such as a channel. -/
inductive GoValue where
  | nil
  | bool (b : Bool)
  | string (s : Bytes)
  | int (n : ℤ)
  | float64 (bits : UInt64)
  | slice (xs : List GoValue)
  | map (entries : List (Bytes × GoValue))
  | struct (fields : List (Bytes × GoValue))
  | other

structure ArtifactRef where
  uri : Bytes
  sha256 : Bytes
  sizeBytes : ℤ
  contentType : Bytes
  getURL : Bytes
  getURLExpiresAt : UInt64

structure TaskErrorDetail where
  code : Bytes
  message : Bytes
  retryable : Bool
  details : Option (List (Bytes × GoValue))

structure TaskCompletePayload where
  taskId : Bytes
  status : Bytes
  metrics : Option (List (Bytes × GoValue))
  durationSec : UInt64
  artifacts : Option (List ArtifactRef)
  error : Option TaskErrorDetail
  completedAt : UInt64

structure ErrorPayload where
  code : Bytes
  message : Bytes
  retryable : Bool
  taskId : Bytes

/-- A struct field with `omitempty`. -/
def omitempty (empty : Bool) (name : String) (v : GoValue) : List (Bytes × GoValue) :=
  if empty then [] else [(ascii name, v)]

/-- `+0` and `-0` are the empty values of a `float64`. -/
def isZeroFloat (bits : UInt64) : Bool := bits = 0 || bits = 0x8000000000000000

def ArtifactRef.value (a : ArtifactRef) : GoValue :=
  .struct ([(ascii "uri", .string a.uri), (ascii "sha256", .string a.sha256), (ascii "size_bytes", .int a.sizeBytes)] ++
    omitempty (a.contentType = []) "content_type" (.string a.contentType) ++
    omitempty (a.getURL = []) "get_url" (.string a.getURL) ++
    omitempty (isZeroFloat a.getURLExpiresAt) "get_url_expires_at" (.float64 a.getURLExpiresAt))

def TaskErrorDetail.value (e : TaskErrorDetail) : GoValue :=
  .struct ([(ascii "code", .string e.code), (ascii "message", .string e.message), (ascii "retryable", .bool e.retryable)] ++
    omitempty ((e.details.getD []).isEmpty) "details" (.map (e.details.getD [])))

/-- The map literal of `enqueueComplete`. -/
def completeValue (c : TaskCompletePayload) : GoValue :=
  .map [(ascii "task_id", .string c.taskId), (ascii "status", .string c.status),
    (ascii "metrics", c.metrics.elim .nil .map), (ascii "duration_s", .float64 c.durationSec),
    (ascii "artifacts", c.artifacts.elim .nil fun as => .slice (as.map ArtifactRef.value)),
    (ascii "error", c.error.elim .nil TaskErrorDetail.value), (ascii "completed_at", .float64 c.completedAt)]

/-- The synthetic complete of `SendError`. -/
def errorValue (e : ErrorPayload) : GoValue :=
  .map [(ascii "task_id", .string e.taskId), (ascii "status", .string (ascii "error")),
    (ascii "error", .map [(ascii "code", .string e.code), (ascii "message", .string e.message),
      (ascii "retryable", .bool e.retryable)])]

/-! ### The sink -/

inductive SinkError where
  | nilComplete
  | nilError
  | marshal
  | enqueue (e : QueueError)
deriving DecidableEq

/-- What one call meets: the answer of the online sink (`none` without one; the
sink drops the error), a fault of the queue, and the clock. -/
structure SinkEnv where
  online : Option Bool
  fault : Option QueueError
  now : ℚ

section Sink
variable (sha256 : Bytes → Bytes) (marshal : GoValue → Option Bytes) (cfg : QueueConfig)

/-- Marshal and enqueue; the part the two calls share. -/
def enqueueFrame (env : SinkEnv) (taskId : Bytes) (v : GoValue) (q : Queue) : Except SinkError Unit × Queue :=
  match marshal v with
  | none => (.error .marshal, q)
  | some raw =>
    let out := QueueCall.perform sha256 cfg q ⟨.enqueue taskId raw env.now, env.fault⟩
    match out.2.reply with
    | .ok _ => (.ok (), out.1)
    | .error e => (.error (.enqueue e), out.1)

def enqueueComplete (env : SinkEnv) (c : TaskCompletePayload) : Queue → Except SinkError Unit × Queue :=
  enqueueFrame sha256 marshal cfg env c.taskId (completeValue c)

def sendComplete (env : SinkEnv) (c : Option TaskCompletePayload) (q : Queue) : Except SinkError Unit × Queue :=
  match c with
  | none => (.error .nilComplete, q)
  | some c =>
    match env.online with
    | some true => (.ok (), q)
    | some false | none => enqueueComplete sha256 marshal cfg env c q

def sendError (env : SinkEnv) (e : Option ErrorPayload) (q : Queue) : Except SinkError Unit × Queue :=
  match e with
  | none => (.error .nilError, q)
  | some e =>
    match env.online with
    | some true => (.ok (), q)
    | some false | none => enqueueFrame sha256 marshal cfg env e.taskId (errorValue e) q

/-! ### Durability -/

/-- The queue holds the frame and has delivered it or still will. -/
def Kept (taskId raw : Bytes) (q : Queue) : Prop :=
  ∃ r ∈ q.rows, r.taskId = taskId ∧ r.payload = raw ∧
    (r.status = .queued ∨ r.status = .uploading ∨ r.status = .uploaded)

instance (taskId raw : Bytes) (q : Queue) : Decidable (Kept taskId raw q) :=
  inferInstanceAs (Decidable (∃ r ∈ q.rows, _))

/-- No row that a new frame would coalesce with is dropped, or holds other
bytes with the same digest. -/
def Unspoiled (taskId raw : Bytes) (q : Queue) : Prop :=
  ∀ r ∈ q.rows, r.taskId = taskId → r.sha256 = sha256 raw → r.payload = raw ∧ r.status ≠ .dropped

/-- The frame is refused before the queue looks for it. -/
def Refused (env : SinkEnv) (taskId : Bytes) (raw : Option Bytes) : Prop :=
  raw = none ∨ raw = some [] ∨ taskId = [] ∨ env.fault ≠ none

theorem perform_enqueue_cases (env : SinkEnv) (taskId raw : Bytes) (q : Queue) :
    (∃ e, QueueCall.perform sha256 cfg q ⟨.enqueue taskId raw env.now, env.fault⟩ =
      (q, ⟨.enqueue taskId raw env.now, .error e⟩)) ∨
    (∃ r ∈ q.rows, r.taskId = taskId ∧ r.sha256 = sha256 raw ∧
      QueueCall.perform sha256 cfg q ⟨.enqueue taskId raw env.now, env.fault⟩ =
        (q, ⟨.enqueue taskId raw env.now, .ok (.id r.id)⟩)) ∨
    ((∀ r ∈ q.rows, ¬ (r.taskId = taskId ∧ r.sha256 = sha256 raw)) ∧
      QueueCall.perform sha256 cfg q ⟨.enqueue taskId raw env.now, env.fault⟩ =
        (⟨q.rows ++ [Queue.newRow sha256 (q.lastId + 1) taskId raw env.now], q.lastId + 1⟩,
          ⟨.enqueue taskId raw env.now, .ok (.id (q.lastId + 1))⟩)) := by
  unfold QueueCall.perform
  cases env.fault with
  | some e => exact Or.inl ⟨e, by simp⟩
  | none =>
    rcases q.enqueue_cases sha256 taskId raw env.now with ⟨e, h⟩ | ⟨r, hr, ht, hs, h⟩ | ⟨hnew, h⟩
    · exact Or.inl ⟨e, by simp [QueueOp.exec, h, Except.map]⟩
    · exact Or.inr (Or.inl ⟨r, hr, ht, hs, by simp [QueueOp.exec, h, Except.map]⟩)
    · exact Or.inr (Or.inr ⟨hnew, by simp [QueueOp.exec, h, Except.map]⟩)

theorem perform_enqueue_refused {env : SinkEnv} {taskId raw : Bytes} (q : Queue)
    (h : raw = [] ∨ taskId = [] ∨ env.fault ≠ none) :
    ∃ e, (QueueCall.perform sha256 cfg q ⟨.enqueue taskId raw env.now, env.fault⟩).2.reply = .error e := by
  unfold QueueCall.perform
  cases hf : env.fault with
  | some e => exact ⟨e, by simp⟩
  | none =>
    simp only [QueueOp.exec, Queue.enqueue, transaction]
    by_cases ht : taskId = []
    · exact ⟨.taskIdRequired, by simp [ht, Except.map]⟩
    · have hr : raw = [] := by
        rcases h with h | h | h
        · exact h
        · exact absurd h ht
        · exact absurd hf h
      exact ⟨.emptyPayload, by simp [ht, hr, Except.map]⟩

/-- A row with the task and digest of the frame takes the frame, whatever its
status is. -/
theorem perform_enqueue_coalesced {env : SinkEnv} {taskId raw : Bytes} {q : Queue} {r : Row}
    (hraw : raw ≠ []) (htask : taskId ≠ []) (hfault : env.fault = none)
    (hr : r ∈ q.rows) (ht : r.taskId = taskId) (hs : r.sha256 = sha256 raw) :
    (QueueCall.perform sha256 cfg q ⟨.enqueue taskId raw env.now, env.fault⟩).1 = q ∧
    ∃ x, (QueueCall.perform sha256 cfg q ⟨.enqueue taskId raw env.now, env.fault⟩).2.reply = .ok x := by
  have hsome : (q.rows.find? (Queue.sameResult taskId (sha256 raw))).isSome := by
    rw [List.find?_isSome]
    exact ⟨r, hr, by simp [Queue.sameResult, ht, hs]⟩
  obtain ⟨existing, hex⟩ := Option.isSome_iff_exists.mp hsome
  have henq : q.enqueue sha256 taskId raw env.now = (.ok existing.id, q) := by
    simp only [Queue.enqueue, transaction, if_neg htask, if_neg hraw, hex]
  simp only [QueueCall.perform, hfault, QueueOp.exec, henq, Prod.map_snd, Prod.map_fst, id_eq, Except.map]
  exact ⟨trivial, _, rfl⟩

theorem enqueueFrame_durable_iff {q : Queue} (hq : q.Inv sha256) (env : SinkEnv) (taskId : Bytes) (v : GoValue) :
    ((enqueueFrame sha256 marshal cfg env taskId v q).1 = .ok () →
      ∃ raw, marshal v = some raw ∧ Kept taskId raw (enqueueFrame sha256 marshal cfg env taskId v q).2) ↔
    Refused env taskId (marshal v) ∨ ∃ raw, marshal v = some raw ∧ Unspoiled sha256 taskId raw q := by
  unfold enqueueFrame
  cases hm : marshal v with
  | none =>
    refine ⟨fun _ => Or.inl (Or.inl rfl), fun _ hok => ?_⟩
    cases hok
  | some raw =>
    dsimp only
    constructor
    · intro hdur
      by_contra hno
      have hok : raw ≠ [] ∧ taskId ≠ [] ∧ env.fault = none := by
        by_contra hc
        apply hno
        left
        unfold Refused
        simp only [Option.some.injEq]
        tauto
      have hspoiled : ¬ Unspoiled sha256 taskId raw q := fun hu => hno (Or.inr ⟨raw, rfl, hu⟩)
      unfold Unspoiled at hspoiled
      push Not at hspoiled
      obtain ⟨r, hr, ht, hs, hbad⟩ := hspoiled
      obtain ⟨hsame, x, hreply⟩ := perform_enqueue_coalesced sha256 cfg hok.1 hok.2.1 hok.2.2 hr ht hs
      rw [hreply] at hdur
      obtain ⟨raw', hraw', r', hr', ht', hp', hst⟩ := hdur rfl
      cases hraw'
      rw [hsame] at hr'
      -- both rows have the key of the frame
      have hkey : (r'.taskId, r'.sha256) = (r.taskId, r.sha256) := by
        rw [hq.digest r' hr', hp', ht', ht, hs]
      have hfind := Table.find_of_mem hq.results hr'
      rw [hkey, Table.find_of_mem hq.results hr] at hfind
      cases hfind
      have hdrop := hbad hp'
      rcases hst with hst | hst | hst <;> rw [hst] at hdrop <;> cases hdrop
    · rintro (href | ⟨raw', hraw', hun⟩) hok
      · have hcause : raw = [] ∨ taskId = [] ∨ env.fault ≠ none := by
          rcases href with href | href | href
          · cases href
          · exact Or.inl (Option.some.inj href)
          · exact Or.inr href
        obtain ⟨e, he⟩ := perform_enqueue_refused sha256 cfg q hcause
        rw [he] at hok
        cases hok
      · cases hraw'
        refine ⟨raw, rfl, ?_⟩
        rcases perform_enqueue_cases sha256 cfg env taskId raw q with
          ⟨e, h⟩ | ⟨r, hr, ht, hs, h⟩ | ⟨-, h⟩
        · rw [h] at hok
          cases hok
        · rw [h]
          obtain ⟨hp, hd⟩ := hun r hr ht hs
          refine ⟨r, hr, ht, hp, ?_⟩
          cases hst : r.status <;> simp_all
        · rw [h]
          exact ⟨Queue.newRow sha256 (q.lastId + 1) taskId raw env.now, by simp, rfl, rfl, Or.inl rfl⟩

end Sink

/-- In every reachable queue state: `SendComplete` and `SendError` keep the
frame on the wire or in a live row exactly when the online sink takes it, the
frame is refused with an error, or no dropped row (and no row with other bytes
of the same digest) stands under its task and digest. -/
theorem sink_durable_iff (sha256 : Bytes → Bytes) (marshal : GoValue → Option Bytes) (cfg : QueueConfig)
    (calls : List QueueCall) (env : SinkEnv) :
    let q := (queueMachine sha256 cfg).run Queue.empty calls
    (∀ c : TaskCompletePayload,
      ((sendComplete sha256 marshal cfg env (some c) q).1 = .ok () →
        env.online = some true ∨ ∃ raw, marshal (completeValue c) = some raw ∧
          Kept c.taskId raw (sendComplete sha256 marshal cfg env (some c) q).2) ↔
      env.online = some true ∨ Refused env c.taskId (marshal (completeValue c)) ∨
        ∃ raw, marshal (completeValue c) = some raw ∧ Unspoiled sha256 c.taskId raw q) ∧
    (∀ e : ErrorPayload,
      ((sendError sha256 marshal cfg env (some e) q).1 = .ok () →
        env.online = some true ∨ ∃ raw, marshal (errorValue e) = some raw ∧
          Kept e.taskId raw (sendError sha256 marshal cfg env (some e) q).2) ↔
      env.online = some true ∨ Refused env e.taskId (marshal (errorValue e)) ∨
        ∃ raw, marshal (errorValue e) = some raw ∧ Unspoiled sha256 e.taskId raw q) := by
  intro q
  have hq : q.Inv sha256 := run_inv cfg (Queue.inv_empty sha256) calls
  refine ⟨fun c => ?_, fun e => ?_⟩
  · have hiff := enqueueFrame_durable_iff sha256 marshal cfg hq env c.taskId (completeValue c)
    rcases honline : env.online with _ | _ | _ <;>
      simp only [sendComplete, honline, enqueueComplete, true_or, implies_true, reduceCtorEq, false_or,
        Option.some.injEq, Bool.false_eq_true]
    · exact hiff
    · exact hiff
  · have hiff := enqueueFrame_durable_iff sha256 marshal cfg hq env e.taskId (errorValue e)
    rcases honline : env.online with _ | _ | _ <;>
      simp only [sendError, honline, true_or, implies_true, reduceCtorEq, false_or,
        Option.some.injEq, Bool.false_eq_true]
    · exact hiff
    · exact hiff

/-! ### A frame that is lost -/

def lostError : ErrorPayload where
  code := ascii "err.resource.pipe_stdout"
  message := ascii "too many open files"
  retryable := false
  taskId := ascii "t1"

/-- What `json.Marshal` makes of it. -/
def lostBytes : Bytes :=
  ascii "\x7b\"error\":\x7b\"code\":\"err.resource.pipe_stdout\",\"message\":\"too many open files\",\"retryable\":false\x7d,\"status\":\"error\",\"task_id\":\"t1\"\x7d"

def lostDigest : Bytes := ascii "5c2440c6f3b670465fe778f0e1838178b6e657d4eab3cc81844beaf9f76b93df"

/-- The error is queued while the agent is offline, and the broker rejects its
replay for good. -/
def lostCalls : List QueueCall :=
  [⟨.enqueue (ascii "t1") lostBytes 1, none⟩, ⟨.dequeue 50 2, none⟩,
   ⟨.forceDropped 1 (ascii "rejected") 3, none⟩]

/-- The task fails again in the same way, offline: `SendError` succeeds, and the
only row with its bytes is the dropped one. -/
theorem sendError_coalesces_with_dropped :
    let q := (queueMachine (fun _ => lostDigest) ⟨10⟩).run Queue.empty lostCalls
    let out := sendError (fun _ => lostDigest) (fun _ => some lostBytes) ⟨10⟩ ⟨some false, none, 4⟩ (some lostError) q
    out.1 = .ok () ∧ (∃ r ∈ out.2.rows, r.taskId = lostError.taskId ∧ r.payload = lostBytes) ∧
      ¬ Kept lostError.taskId lostBytes out.2 := by
  decide +kernel

end AgentWorkflow.VmAgent
