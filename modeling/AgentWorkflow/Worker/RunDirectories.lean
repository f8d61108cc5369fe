import AgentWorkflow.Lib.Machine
import AgentWorkflow.Lib.OrderedDict
import AgentWorkflow.Lib.Calendar

/-!
# Run directories (`agent.py`)

`CommandRunner` makes a directory with a random name for each attempt and keeps a
record of it under the task id until `cleanup` or `cleanup_oldest` has deleted it.
Attempts run one after another. What a deletion meets on the disk is given with
the step: the task may leave anything there.
-/

namespace AgentWorkflow.Worker.RunDirectories
open AgentWorkflow.Lib AgentWorkflow.Lib.Calendar

/-! ### Task ids -/

/-- The characters of `_SAFE_TASK_ID` -/
def safeTaskChar (c : Char) : Bool := c.isAlphanum || c == '_' || c == '.' || c == '-'

def safeTaskId (s : Text) : Bool := decide (1 ≤ s.length) && decide (s.length ≤ 128) && s.all safeTaskChar

def invalidTask : Text := "invalid-task".toList

/-- `_safe_task_label` -/
def safeTaskLabel (s : Text) : Text := if safeTaskId s then s else invalidTask

/-! ### What is on the disk -/

structure Marker where
  taskId : Text
  runId : Text
deriving DecidableEq

/-- What `json.loads` makes of a file: `none` is a document that is no marker. -/
inductive Content where
  | json (m : Option Marker)
  | invalid
  | tooDeep
deriving DecidableEq

/-- `isPrivate`: a regular file with one link, our owner, mode 0600 and at most `_MARKER_MAX_BYTES`. -/
structure File where
  isPrivate : Bool
  content : Content
deriving DecidableEq

/-- `isPrivate`: our owner and mode 0700. -/
structure DirInfo where
  isPrivate : Bool
  identity : ℕ × ℕ
  readable : Bool
deriving DecidableEq

inductive Node where
  | link
  | special
  | file (f : File)
  | dir (info : DirInfo) (entries : List (Text × Node))

/-- What a deletion meets: the entry at the path, whether it resolves inside the task
root, and how `rmtree`, the final `fsync` and the last `lexists` end. -/
structure Disk where
  found : Option Node
  resolves : Bool
  rmtree : Bool
  fsync : Bool
  remains : Bool

structure Record where
  taskId : Text
  name : Text
  identity : ℕ × ℕ
  marker : Marker
  created : ℚ
deriving DecidableEq

def taskMarkerName : Text := ".awp-worker-run.json".toList

/-- What leaves `_delete_tracked_run` as an exception. -/
inductive Raised where
  | recursionError
  | fsyncError
deriving DecidableEq, Repr

/-- `read_json` of the marker; `none` is an exception that is caught. -/
def readMarker (entries : List (Text × Node)) : Except Raised (Option (Option Marker)) :=
  match OrderedDict.get taskMarkerName entries with
  | some (.file f) =>
    if ¬ f.isPrivate then .ok none
    else
      match f.content with
      | .json m => .ok (some m)
      | .invalid => .ok none
      | .tooDeep => .error .recursionError
  | _ => .ok none

def validatedTrackedRun (r : Record) (x : Disk) : Except Raised (Option (DirInfo × List (Text × Node))) :=
  match x.found with
  | some (.dir info entries) =>
    if ¬ info.isPrivate ∨ info.identity ≠ r.identity ∨ ¬ x.resolves then .ok none
    else
      match readMarker entries with
      | .error e => .error e
      | .ok m => .ok (if m = some (some r.marker) then some (info, entries) else none)
  | _ => .ok none

/-- `descend` is the recursive call. -/
def scanEntries (descend : DirInfo → List (Text × Node) → Except Raised Bool) :
    List (Text × Node) → Except Raised Bool
  | [] => .ok false
  | (_, .link) :: _ => .ok true
  | (_, .dir info entries) :: rest =>
    match descend info entries with
    | .error e => .error e
    | .ok true => .ok true
    | .ok false => scanEntries descend rest
  | _ :: rest => scanEntries descend rest

/-- `_contains_reparse`; `limit` is the recursion depth that is left. -/
def containsReparse : ℕ → DirInfo → List (Text × Node) → Except Raised Bool
  | 0, _, _ => .error .recursionError
  | limit + 1, info, entries =>
    if ¬ info.readable then .ok true else scanEntries (containsReparse limit) entries

def deleteTrackedRun (limit : ℕ) (r : Record) (x : Disk) : Except Raised Bool :=
  match validatedTrackedRun r x with
  | .error e => .error e
  | .ok none => .ok false
  | .ok (some (info, entries)) =>
    match containsReparse limit info entries with
    | .error e => .error e
    | .ok true => .ok false
    | .ok false =>
      if ¬ x.rmtree then .ok false
      else if ¬ x.fsync then .error .fsyncError
      else .ok (!x.remains)

/-! ### When a run is deleted -/

/-- No link, nothing unreadable, and not deeper than the limit. -/
def Plain : ℕ → DirInfo → List (Text × Node) → Prop
  | 0, _, _ => False
  | limit + 1, info, entries =>
    info.readable = true ∧ ∀ e ∈ entries, e.2 ≠ .link ∧ ∀ i es, e.2 = .dir i es → Plain limit i es

def Marked (r : Record) (entries : List (Text × Node)) : Prop :=
  ∃ f : File, OrderedDict.get taskMarkerName entries = some (.file f) ∧ f.isPrivate = true ∧
    f.content = .json (some r.marker)

/-- The run directory is the one that was made, with its marker, and can be removed. -/
def Deletable (limit : ℕ) (r : Record) (x : Disk) : Prop :=
  ∃ info entries, x.found = some (.dir info entries) ∧ info.isPrivate = true ∧ info.identity = r.identity ∧
    x.resolves = true ∧ Marked r entries ∧ Plain limit info entries ∧
    x.rmtree = true ∧ x.fsync = true ∧ x.remains = false

theorem scanEntries_plain {descend : DirInfo → List (Text × Node) → Except Raised Bool}
    {P : DirInfo → List (Text × Node) → Prop} (h : ∀ i es, descend i es = .ok false ↔ P i es)
    (entries : List (Text × Node)) :
    scanEntries descend entries = .ok false ↔ ∀ e ∈ entries, e.2 ≠ .link ∧ ∀ i es, e.2 = .dir i es → P i es := by
  induction entries with
  | nil => simp [scanEntries]
  | cons e rest ih =>
    obtain ⟨name, node⟩ := e
    cases node with
    | link => simp [scanEntries]
    | special => simpa [scanEntries] using ih
    | file f => simpa [scanEntries] using ih
    | dir info entries =>
      simp only [scanEntries, List.forall_mem_cons]
      have hd := h info entries
      cases hdesc : descend info entries with
      | error e =>
        rw [hdesc] at hd
        simp only [reduceCtorEq, false_iff] at hd
        simp [hd]
      | ok b =>
        rw [hdesc] at hd
        cases b with
        | true =>
          simp only [Except.ok.injEq, Bool.true_eq_false, false_iff] at hd
          simp [hd]
        | false =>
          simp only [true_iff] at hd
          simp [ih, hd]

theorem containsReparse_plain (limit : ℕ) (info : DirInfo) (entries : List (Text × Node)) :
    containsReparse limit info entries = .ok false ↔ Plain limit info entries := by
  induction limit generalizing info entries with
  | zero => simp [containsReparse, Plain]
  | succ limit ih =>
    unfold containsReparse Plain
    rw [← scanEntries_plain ih]
    cases info.readable with
    | true => simp
    | false => simp

theorem readMarker_marked (r : Record) (entries : List (Text × Node)) :
    readMarker entries = .ok (some (some r.marker)) ↔ Marked r entries := by
  unfold readMarker Marked
  split
  next f hget =>
    rw [hget]
    cases hpriv : f.isPrivate with
    | false =>
      simp only [Bool.false_eq_true, not_false_eq_true, if_true, Except.ok.injEq, reduceCtorEq, false_iff]
      rintro ⟨g, hg, htrue, -⟩
      cases hg
      rw [hpriv] at htrue
      cases htrue
    | true =>
      cases hcontent : f.content with
      | json m =>
        simp only [not_true_eq_false, if_false, Except.ok.injEq, Option.some.injEq]
        constructor
        · rintro rfl
          exact ⟨f, rfl, hpriv, hcontent⟩
        · rintro ⟨g, hg, -, hjson⟩
          cases hg
          rw [hcontent] at hjson
          cases hjson
          rfl
      | invalid =>
        simp only [not_true_eq_false, if_false, Except.ok.injEq, reduceCtorEq, false_iff]
        rintro ⟨g, hg, -, hjson⟩
        cases hg
        rw [hcontent] at hjson
        cases hjson
      | tooDeep =>
        simp only [not_true_eq_false, if_false, reduceCtorEq, false_iff]
        rintro ⟨g, hg, -, hjson⟩
        cases hg
        rw [hcontent] at hjson
        cases hjson
  next hnot =>
    simp only [Except.ok.injEq, reduceCtorEq, false_iff]
    rintro ⟨g, hg, -⟩
    exact hnot g hg

theorem validatedTrackedRun_some (r : Record) (x : Disk) (info : DirInfo) (entries : List (Text × Node)) :
    validatedTrackedRun r x = .ok (some (info, entries)) ↔
      x.found = some (.dir info entries) ∧ info.isPrivate = true ∧ info.identity = r.identity ∧
        x.resolves = true ∧ Marked r entries := by
  unfold validatedTrackedRun
  split
  next info' entries' hfound =>
    rw [hfound, ← readMarker_marked]
    split
    next hbad =>
      simp only [Except.ok.injEq, reduceCtorEq, false_iff]
      rintro ⟨heq, hpriv, hid, hres, -⟩
      cases heq
      rcases hbad with h | h | h
      · exact h hpriv
      · exact h hid
      · exact h hres
    next hgood =>
      simp only [not_or, not_not] at hgood
      obtain ⟨hpriv, hid, hres⟩ := hgood
      cases hread : readMarker entries' with
      | error e =>
        simp only [reduceCtorEq, false_iff]
        rintro ⟨heq, -, -, -, hmark⟩
        cases heq
        rw [hread] at hmark
        cases hmark
      | ok m =>
        simp only [Except.ok.injEq]
        split
        next hm =>
          simp only [Option.some.injEq, Prod.mk.injEq]
          constructor
          · rintro ⟨rfl, rfl⟩
            exact ⟨rfl, hpriv, hid, hres, by rw [hread, hm]⟩
          · rintro ⟨heq, -⟩
            cases heq
            exact ⟨rfl, rfl⟩
        next hm =>
          simp only [reduceCtorEq, false_iff]
          rintro ⟨heq, -, -, -, hmark⟩
          cases heq
          rw [hread, Except.ok.injEq] at hmark
          exact hm hmark
  next hnot =>
    simp only [Except.ok.injEq, reduceCtorEq, false_iff]
    rintro ⟨hfound, -⟩
    exact hnot _ _ hfound

theorem deleteTrackedRun_iff (limit : ℕ) (r : Record) (x : Disk) :
    deleteTrackedRun limit r x = .ok true ↔ Deletable limit r x := by
  constructor
  · intro h
    unfold deleteTrackedRun at h
    cases hvalid : validatedTrackedRun r x with
    | error e =>
      rw [hvalid] at h
      cases h
    | ok v =>
      rw [hvalid] at h
      match v, hvalid with
      | none, hvalid => cases h
      | some (info, entries), hvalid =>
        obtain ⟨hfound, hpriv, hid, hres, hmark⟩ := (validatedTrackedRun_some r x info entries).mp hvalid
        simp only at h
        cases hscan : containsReparse limit info entries with
        | error e =>
          rw [hscan] at h
          cases h
        | ok b =>
          rw [hscan] at h
          cases b with
          | true => cases h
          | false =>
            have hplain := (containsReparse_plain limit info entries).mp hscan
            cases hrm : x.rmtree with
            | false => simp [hrm] at h
            | true =>
              cases hfs : x.fsync with
              | false => simp [hrm, hfs] at h
              | true =>
                simp only [hrm, hfs, not_true_eq_false, if_false, Except.ok.injEq, Bool.not_eq_true'] at h
                exact ⟨info, entries, hfound, hpriv, hid, hres, hmark, hplain, hrm, hfs, h⟩
  · rintro ⟨info, entries, hfound, hpriv, hid, hres, hmark, hplain, hrm, hfs, hgone⟩
    have hvalid := (validatedTrackedRun_some r x info entries).mpr ⟨hfound, hpriv, hid, hres, hmark⟩
    have hscan := (containsReparse_plain limit info entries).mpr hplain
    simp [deleteTrackedRun, hvalid, hscan, hrm, hfs, hgone]

/-! ### The runner -/

/-- `keep` is `runner.keep_workdirs`, `limit` the recursion depth of the interpreter. -/
structure Config where
  keep : Bool
  limit : ℕ

abbrev Owned := List (Text × Record)

structure Creation where
  runId : Text
  identity : ℕ × ℕ
  created : ℚ

inductive RunFailure where
  | notAdmitted
  | alreadyOwned
  | notCreated
deriving DecidableEq, Repr

def RunFailure.message : RunFailure → Option String
  | .alreadyOwned => some "task_id already has a run owned by this process"
  | _ => none

/-- `admitted`: the checks of `run` before `_task_dir` pass. `creation` is `none` where
`_create_random_run` raises; `disk` is what `cleanup` meets afterwards. -/
structure Attempt where
  taskId : Text
  admitted : Bool
  creation : Option Creation
  disk : Disk

def Attempt.reaches (a : Attempt) : Bool := a.admitted && safeTaskId a.taskId

def newRecord (taskId : Text) (c : Creation) : Record :=
  { taskId := taskId, name := taskId ++ "--".toList ++ c.runId, identity := c.identity,
    marker := ⟨taskId, c.runId⟩, created := c.created }

/-- `_task_dir`, called by `run` -/
def taskDir (a : Attempt) (owned : Owned) : Owned × Option RunFailure :=
  if ¬ a.reaches then (owned, some .notAdmitted)
  else if a.taskId ∈ OrderedDict.keys owned then (owned, some .alreadyOwned)
  else
    match a.creation with
    | none => (owned, some .notCreated)
    | some c => (OrderedDict.put a.taskId (newRecord a.taskId c) owned, none)

def cleanup (cfg : Config) (taskId : Text) (x : Disk) (owned : Owned) : Owned :=
  if ¬ safeTaskId taskId then owned
  else
    match OrderedDict.get taskId owned with
    | none => owned
    | some r =>
      if cfg.keep then owned
      else if deleteTrackedRun cfg.limit r x = .ok true then OrderedDict.pop taskId owned
      else owned

/-- `_execute_task`: whatever becomes of the run, `cleanup` comes last. -/
def executeTask (cfg : Config) (a : Attempt) (owned : Owned) : Owned × Option RunFailure :=
  let r := taskDir a owned
  (cleanup cfg (safeTaskLabel a.taskId) a.disk r.1, r.2)

/-- `cleanup_oldest` under disk pressure -/
structure Pressure where
  keepCount : ℤ
  exclude : List Text
  disk : Text → Disk

def older (a b : Record) : Prop := a.created < b.created ∨ (a.created = b.created ∧ a.name ≤ b.name)

instance : DecidableRel older := fun _ _ => inferInstanceAs (Decidable (_ ∨ _))

def victims (p : Pressure) (owned : Owned) : List Record :=
  let eligible := ((owned.filter fun e => decide (e.1 ∉ p.exclude)).map Prod.snd).insertionSort older
  eligible.take (eligible.length - p.keepCount.toNat)

/-- The records whose directories the loop deletes; an exception ends it. -/
def deletedOf (limit : ℕ) (disk : Text → Disk) : List Record → List Text
  | [] => []
  | r :: rs =>
    match deleteTrackedRun limit r (disk r.taskId) with
    | .error _ => []
    | .ok true => r.taskId :: deletedOf limit disk rs
    | .ok false => deletedOf limit disk rs

def cleanupOldest (cfg : Config) (p : Pressure) (owned : Owned) : Owned :=
  (deletedOf cfg.limit p.disk (victims p owned)).foldl (fun o t => OrderedDict.pop t o) owned

inductive Op where
  | attempt (a : Attempt)
  | pressure (p : Pressure)

/-- What a step started from, and how `run` failed in it. -/
structure Event where
  owned : Owned
  op : Op
  failure : Option RunFailure

def step (cfg : Config) (owned : Owned) (op : Op) : Owned × Event :=
  match op with
  | .attempt a =>
    let r := executeTask cfg a owned
    (r.1, ⟨owned, op, r.2⟩)
  | .pressure p => (cleanupOldest cfg p owned, ⟨owned, op, none⟩)

def machine (cfg : Config) : Machine Owned Op Event := ⟨step cfg⟩

/-! ### What a step does to the records -/

/-- The attempt gets a run directory. -/
def Creates (owned : Owned) (a : Attempt) (t : Text) : Prop :=
  a.reaches = true ∧ a.taskId = t ∧ t ∉ OrderedDict.keys owned ∧ a.creation.isSome = true

/-- The step deletes the run directory of the task. -/
def Releases (cfg : Config) (t : Text) (owned : Owned) : Op → Prop
  | .attempt a =>
    safeTaskLabel a.taskId = t ∧ cfg.keep = false ∧
      ∃ r, OrderedDict.get t (taskDir a owned).1 = some r ∧ Deletable cfg.limit r a.disk
  | .pressure p => t ∈ deletedOf cfg.limit p.disk (victims p owned)

theorem taskDir_keys (a : Attempt) (owned : Owned) (t : Text) :
    t ∈ OrderedDict.keys (taskDir a owned).1 ↔ Creates owned a t ∨ t ∈ OrderedDict.keys owned := by
  unfold taskDir Creates
  split
  next hreach => simp [hreach]
  next hreach =>
    have hreach : a.reaches = true := not_not.mp hreach
    split
    next hmem =>
      constructor
      · exact Or.inr
      · rintro (⟨-, rfl, hnot, -⟩ | h)
        · exact absurd hmem hnot
        · exact h
    next hmem =>
      cases hc : a.creation with
      | none => simp
      | some c =>
        simp only [OrderedDict.mem_keys_put, hreach, true_and, Option.isSome_some, and_true]
        constructor
        · rintro (rfl | h)
          · exact Or.inl ⟨rfl, hmem⟩
          · exact Or.inr h
        · rintro (⟨rfl, -⟩ | h)
          · exact Or.inl rfl
          · exact Or.inr h

theorem taskDir_failure (a : Attempt) (owned : Owned) :
    (taskDir a owned).2 = some .alreadyOwned ↔ a.reaches = true ∧ a.taskId ∈ OrderedDict.keys owned := by
  unfold taskDir
  split
  next hreach => simp [hreach]
  next hreach =>
    split
    next hmem => simp [not_not.mp hreach, hmem]
    next hmem => cases a.creation <;> simp [hmem]

theorem safeTaskLabel_safe (s : Text) : safeTaskId (safeTaskLabel s) = true := by
  unfold safeTaskLabel
  split
  next h => exact h
  next => decide

theorem cleanup_keys (cfg : Config) {taskId : Text} (hsafe : safeTaskId taskId = true) (x : Disk) (owned : Owned)
    (t : Text) :
    t ∈ OrderedDict.keys (cleanup cfg taskId x owned) ↔
      t ∈ OrderedDict.keys owned ∧ ¬ (taskId = t ∧ cfg.keep = false ∧
        ∃ r, OrderedDict.get t owned = some r ∧ Deletable cfg.limit r x) := by
  unfold cleanup
  rw [if_neg (not_not.mpr hsafe)]
  cases hget : OrderedDict.get taskId owned with
  | none =>
    have hnot := OrderedDict.get_none.mp hget
    simp only [iff_self_and, not_and]
    rintro hmem rfl
    exact absurd hmem hnot
  | some r =>
    simp only [← deleteTrackedRun_iff]
    cases hkeep : cfg.keep with
    | true => simp
    | false =>
      simp only [Bool.false_eq_true, if_false, true_and]
      split
      next hdel =>
        rw [OrderedDict.mem_keys_pop]
        constructor
        · rintro ⟨hmem, hne⟩
          exact ⟨hmem, fun h => hne h.1.symm⟩
        · rintro ⟨hmem, hnot⟩
          refine ⟨hmem, ?_⟩
          rintro rfl
          exact hnot ⟨rfl, r, hget, hdel⟩
      next hdel =>
        simp only [iff_self_and, not_and, not_exists]
        rintro - rfl r' hr'
        rw [hget] at hr'
        cases hr'
        exact hdel

theorem mem_foldl_pop (ts : List Text) (owned : Owned) (t : Text) :
    t ∈ OrderedDict.keys (ts.foldl (fun o t => OrderedDict.pop t o) owned) ↔
      t ∈ OrderedDict.keys owned ∧ t ∉ ts := by
  induction ts generalizing owned with
  | nil => simp
  | cons u ts ih =>
    rw [List.foldl_cons, ih, OrderedDict.mem_keys_pop, List.mem_cons]
    tauto

def Leaves (cfg : Config) (t : Text) (e : Event) : Prop :=
  (∃ a, e.op = .attempt a ∧ Creates e.owned a t) ∧ ¬ Releases cfg t e.owned e.op

def Released (cfg : Config) (t : Text) (e : Event) : Prop := Releases cfg t e.owned e.op

theorem step_keys (cfg : Config) (owned : Owned) (op : Op) (t : Text) :
    t ∈ OrderedDict.keys (step cfg owned op).1 ↔
      Leaves cfg t (step cfg owned op).2 ∨
        (t ∈ OrderedDict.keys owned ∧ ¬ Released cfg t (step cfg owned op).2) := by
  cases op with
  | attempt a =>
    have hclean := cleanup_keys cfg (safeTaskLabel_safe a.taskId) a.disk (taskDir a owned).1 t
    have hdir := taskDir_keys a owned t
    have hcreates : (∃ b, Op.attempt a = .attempt b ∧ Creates owned b t) ↔ Creates owned a t :=
      ⟨fun ⟨b, hb, hc⟩ => by cases hb; exact hc, fun hc => ⟨a, rfl, hc⟩⟩
    simp only [step, executeTask, Leaves, Released, Releases]
    rw [hclean, hdir, hcreates]
    exact or_and_right
  | pressure p =>
    simp only [step, cleanupOldest, Leaves, Released, Releases, mem_foldl_pop, reduceCtorEq, false_and, exists_false,
      false_or]

theorem run_keys (cfg : Config) (ops : List Op) (t : Text) :
    t ∈ OrderedDict.keys ((machine cfg).run [] ops) ↔
      Since (Leaves cfg t) (Released cfg t) ((machine cfg).trace [] ops) := by
  have hempty : t ∈ OrderedDict.keys ([] : Owned) ↔ Since (Leaves cfg t) (Released cfg t) [] := by
    simp only [OrderedDict.keys, List.map_nil, List.not_mem_nil, false_iff]
    exact not_since_nil
  refine (machine cfg).history_invariant
    (P := fun h owned => t ∈ OrderedDict.keys owned ↔ Since (Leaves cfg t) (Released cfg t) h) hempty ?_ ops
  intro h owned op hinv
  show t ∈ OrderedDict.keys (step cfg owned op).1 ↔ _
  rw [step_keys, hinv]
  constructor
  · rintro (hleaves | ⟨hsince, hnot⟩)
    · exact since_snoc_self h hleaves
    · exact since_snoc hsince hnot
  · intro hsince
    exact since_of_snoc hsince

/-! ### Retries -/

def NeverRefused (h : List Event) : Prop := ∀ e ∈ h, e.failure ≠ some .alreadyOwned

/-- Before an attempt at a task, every run directory that an earlier attempt at it left
has been deleted by a cleanup. -/
def LeftoversDeleted (cfg : Config) (h : List Event) : Prop :=
  Everywhere (fun pre e => ∀ a, e.op = .attempt a → a.reaches = true →
    ¬ Since (Leaves cfg a.taskId) (Released cfg a.taskId) pre) h

theorem retry_never_refused_iff (cfg : Config) (ops : List Op) :
    NeverRefused ((machine cfg).trace [] ops) ↔ LeftoversDeleted cfg ((machine cfg).trace [] ops) := by
  constructor
  · intro h pre e post hsplit a hop hreach hsince
    have hnot := h e (by rw [hsplit]; exact List.mem_append_right _ List.mem_cons_self)
    obtain ⟨before, op, after, rfl, rfl, rfl, rfl⟩ := (machine cfg).trace_split hsplit
    have hmem := (run_keys cfg before a.taskId).mpr hsince
    cases op with
    | attempt b =>
      cases hop
      exact hnot ((taskDir_failure a _).mpr ⟨hreach, hmem⟩)
    | pressure p => cases hop
  · intro h e he hfail
    obtain ⟨pre, post, hsplit⟩ := List.append_of_mem he
    have hleft := h pre e post hsplit
    obtain ⟨before, op, after, rfl, rfl, rfl, rfl⟩ := (machine cfg).trace_split hsplit
    cases op with
    | attempt a =>
      obtain ⟨hreach, hmem⟩ := (taskDir_failure a _).mp hfail
      exact hleft a rfl hreach ((run_keys cfg before a.taskId).mp hmem)
    | pressure p => cases hfail

/-- While nothing is kept and every cleanup meets a directory it can delete, the map of
records is empty between the attempts. -/
theorem records_empty_of_deletable {cfg : Config} (hkeep : cfg.keep = false) (attempts : List Attempt)
    (h : ∀ a ∈ attempts, ∀ c, a.creation = some c → Deletable cfg.limit (newRecord a.taskId c) a.disk) :
    (machine cfg).run [] (attempts.map .attempt) = [] := by
  induction attempts using List.reverseRecOn with
  | nil => rfl
  | append_singleton attempts a ih =>
    have hbefore := ih fun b hb => h b (List.mem_append_left _ hb)
    have hlast := h a (by simp)
    rw [List.map_append, List.map_singleton, Machine.run_snoc, hbefore]
    show cleanup cfg (safeTaskLabel a.taskId) a.disk (taskDir a []).1 = []
    by_cases hreach : a.reaches = true
    · have hsafe : safeTaskId a.taskId = true := (Bool.and_eq_true_iff.mp hreach).2
      cases hc : a.creation with
      | none => simp [taskDir, cleanup, hreach, hc, OrderedDict.keys, OrderedDict.get]
      | some c =>
        have hdel := (deleteTrackedRun_iff _ _ _).mpr (hlast c hc)
        simp [taskDir, cleanup, safeTaskLabel, hreach, hsafe, hc, hkeep, hdel, OrderedDict.keys, OrderedDict.get,
          OrderedDict.put, OrderedDict.pop]
    · simp [taskDir, cleanup, hreach, OrderedDict.get]

/-- The task leaves a symbolic link beside the marker. -/
def linkedDisk : Disk :=
  { found := some (.dir ⟨true, (1, 2), true⟩
      [(taskMarkerName, .file ⟨true, .json (some ⟨['t'], ['r']⟩)⟩), (['l'], .link)])
    resolves := true, rmtree := true, fsync := true, remains := false }

def linkedAttempt : Attempt := { taskId := ['t'], admitted := true, creation := some ⟨['r'], (1, 2), 0⟩, disk := linkedDisk }

theorem retry_refused_after_link : ¬ ∀ cfg ops, NeverRefused ((machine cfg).trace [] ops) := by
  intro h
  have hnot := h ⟨false, 1000⟩ [.attempt linkedAttempt, .attempt linkedAttempt]
  simp only [Machine.trace_cons, NeverRefused, List.forall_mem_cons] at hnot
  exact hnot.2.1 (by decide +kernel)

end AgentWorkflow.Worker.RunDirectories
