import AgentWorkflow.ControlPlane.System

/-!
# Idempotent creation of tasks (`routes/tasks.py`, `database.py`)

`create_task` as a route: the block inside `get_db`, whose statements may each
raise, and the publication after it. The other operations are those of the
machine `system`; they rewrite rows but never what identifies them.
-/

namespace AgentWorkflow.ControlPlane
open AgentWorkflow.Lib AgentWorkflow.Lib.Calendar

/-- The places of `create_task` at which a call may raise. -/
inductive Stmt where
  | connect
  | begin
  | select
  | taskOut
  | now
  | insert
  | reread
  | commit
  | publish
  | reply
deriving DecidableEq

inductive RouteError where
  | handler (e : Error)
  | raised (at_ : Stmt)
deriving DecidableEq

def raiseAt (fault : Option Stmt) (s : Stmt) : Except RouteError Unit :=
  if fault = some s then .error (.raised s) else .ok ()

/-- The lookup is skipped when there is no key. -/
def findExisting (tenantId : Text) (key : Option Text) (fault : Option Stmt) (db : Db) :
    Except RouteError (Option Task) :=
  match key with
  | none => .ok none
  | some _ => do
    raiseAt fault .select
    return db.tasks.find? (sameKey tenantId key)

/-- The part of the block that inserts a row, reads it back and commits. -/
def createRow (J : JsonLib) (body : CreateTaskRequest) (tenantId taskId : Text) (now : UtcTime)
    (fault : Option Stmt) (db : Db) : Except RouteError ((Task × Bool) × Db) := do
  raiseAt fault .now
  match J.dumps (.obj body.payload) false with
  | none => .error (.handler (.http 422 "task payload must be finite JSON"))
  | some payloadJson =>
    raiseAt fault .insert
    match insertTask (newTask body tenantId taskId payloadJson now.isoformat) db with
    | .error e => .error (.handler e)
    | .ok (row, after) =>
      raiseAt fault .reread
      raiseAt fault .commit
      return ((row, true), after)

/-- The block of `create_task` inside `get_db`; the flag is `created`. The early
return leaves the block normally, so it commits too. -/
def createBlock (J : JsonLib) (body : CreateTaskRequest) (tenantId taskId : Text) (now : UtcTime)
    (fault : Option Stmt) (db : Db) : Except RouteError ((Task × Bool) × Db) := do
  raiseAt fault .begin
  match ← findExisting tenantId body.idempotencyKey fault db with
  | some existing =>
    raiseAt fault .taskOut
    raiseAt fault .commit
    return ((existing, false), db)
  | none => createRow J body tenantId taskId now fault db

structure RouteReply where
  reply : Except RouteError Task
  published : Bool

/-- `create_task`: a row that was inserted is published once the block has
committed. -/
def createTaskRoute (J : JsonLib) (body : CreateTaskRequest) (tenantId taskId : Text) (now : UtcTime)
    (fault : Option Stmt) (db : Db) : RouteReply × Db :=
  match raiseAt fault .connect with
  | .error e => (⟨.error e, false⟩, db)
  | .ok _ =>
    match transaction (createBlock J body tenantId taskId now fault) db with
    | (.error e, after) => (⟨.error e, false⟩, after)
    | (.ok (row, false), after) => (⟨.ok row, false⟩, after)
    | (.ok (row, true), after) =>
      (⟨(do raiseAt fault .publish; raiseAt fault .reply; return row), true⟩, after)

/-! ### Interleaved with the other operations -/

def Op.creates : Op → Bool
  | .createTask _ _ _ _ => true
  | _ => false

inductive Request where
  | create (body : CreateTaskRequest) (tenantId taskId : Text) (now : UtcTime) (fault : Option Stmt)
  | other (op : Op) (h : op.creates = false)

inductive Outcome where
  | create (tenantId : Text) (key : Option Text) (r : RouteReply)
  | other (e : Event)

def intakeStep (J : JsonLib) (cfg : Config) (db : Db) : Request → Db × Outcome
  | .create body tenantId taskId now fault =>
    let out := createTaskRoute J body tenantId taskId now fault db
    (out.2, .create tenantId body.idempotencyKey out.1)
  | .other op _ =>
    let out := perform J cfg db op
    (out.1, .other out.2)

def intake (J : JsonLib) (cfg : Config) : Machine Db Request Outcome := ⟨intakeStep J cfg⟩

/-- The id a call for this tenant and key returned. -/
def Outcome.returned (tenantId key : Text) : Outcome → Option Text
  | .create t k ⟨.ok row, _⟩ => if t = tenantId ∧ k = some key then some row.id else none
  | _ => none

/-- A call for this tenant and key published a pending event. -/
def Outcome.publishes (tenantId key : Text) : Outcome → Bool
  | .create t k r => decide (t = tenantId ∧ k = some key) && r.published
  | .other _ => false

/-! ### What identifies a row -/

structure Identity where
  id : Text
  tenantId : Text
  idempotencyKey : Option Text
  payloadJson : Text
deriving DecidableEq

def Task.identity (r : Task) : Identity := ⟨r.id, r.tenantId, r.idempotencyKey, r.payloadJson⟩

theorem sameKey_of_identity {tenantId : Text} {key : Option Text} {r s : Task} (h : r.identity = s.identity) :
    sameKey tenantId key r = sameKey tenantId key s := by
  simp only [Task.identity, Identity.mk.injEq] at h
  obtain ⟨-, htenant, hkey, -⟩ := h
  simp only [sameKey, htenant, hkey]

section Steps
variable {J : JsonLib} {cfg : Config} {db : Db}

/-- Every operation but `create_task` rewrites the rows in place. -/
theorem perform_map (hu : Table.Unique Task.id db.tasks) {op : Op} (hop : op.creates = false) :
    ∃ f : Task → Task, (perform J cfg db op).1.tasks = db.tasks.map f ∧ ∀ r, (f r).identity = r.identity := by
  cases op with
  | register body tenantId tokenHash now =>
    refine ⟨id, ?_, fun _ => rfl⟩
    rw [List.map_id]
    rcases register_cases body tenantId tokenHash now db with h | ⟨a, -, h⟩ <;> simp only [perform, h]
  | createTask body tenantId taskId now => cases hop
  | claimPending agent slots now uuid =>
    rcases claimPending_cases J cfg agent slots now uuid hu with ⟨e, h⟩ | ⟨lease, -, h⟩
    · exact ⟨id, by simp only [perform, h, List.map_id], fun _ => rfl⟩
    · refine ⟨_, by simp only [perform, h, claimLoop_tasks]; rfl, fun r => ?_⟩
      exact Table.foldl_guard_key _ (fun (p : Task × Text) r => claimRow agent now.isoformat lease.isoformat p.2 r)
        (fun _ _ => rfl) _ r
  | heartbeat agent body now =>
    rcases heartbeat_cases cfg agent body now db with ⟨e, h⟩ | ⟨lease, -, -, h⟩
    · exact ⟨id, by simp only [perform, h, List.map_id], fun _ => rfl⟩
    · refine ⟨_, by simp only [perform, h]; rfl, fun r => ?_⟩
      have hrow : ∀ s, (renewRow now.isoformat lease.isoformat s).identity = s.identity := fun _ => rfl
      exact Table.update_key hrow r
  | submitResult agent taskId body now =>
    rcases submitResult_cases J agent taskId body now db with
      ⟨e, h⟩ | ⟨row, -, -, -, -, -, h⟩ | ⟨row, -, encoded, -, h⟩
    · exact ⟨id, by simp only [perform, h, List.map_id], fun _ => rfl⟩
    · exact ⟨id, by simp only [perform, h, List.map_id], fun _ => rfl⟩
    · refine ⟨_, by simp only [perform, h]; rfl, fun r => ?_⟩
      have hrow : ∀ s, (completeRow body encoded now.isoformat s).identity = s.identity := fun _ => rfl
      exact Table.update_key hrow r
  | expireStaleAgents now =>
    have hdb : (perform J cfg db (.expireStaleAgents now)).1 = (expireStaleAgents cfg now db).2 := rfl
    rw [hdb]
    rcases expireStaleAgents_cases cfg now db with h | ⟨cutoff, -, h⟩
    · exact ⟨id, by rw [h, List.map_id], fun _ => rfl⟩
    rcases expireBlock_cases cutoff.isoformat now.isoformat db with hb | ⟨hb, -⟩
    · exact ⟨id, by rw [h, hb, List.map_id], fun _ => rfl⟩
    · refine ⟨_, by rw [h, hb]; rfl, fun r => ?_⟩
      have hrow : ∀ s, (expireLease now.isoformat s).identity = s.identity := fun _ => rfl
      exact Table.update_key hrow r
  | reapExpiredTasks now =>
    refine ⟨_, by simp only [perform, reapExpiredTasks, reapLoop_select cfg now.isoformat hu]; rfl, fun r => ?_⟩
    have hrow : ∀ s, (reapRow cfg now.isoformat s s).identity = s.identity := by
      intro s
      unfold reapRow
      split_ifs <;> rfl
    exact Table.update_key hrow r

theorem raise_or {α : Type} (fault : Option Stmt) (s : Stmt) (x : Except RouteError α) :
    (∃ e, (do raiseAt fault s; x) = .error e) ∨ (do raiseAt fault s; x) = x := by
  cases h : raiseAt fault s with
  | error e => exact Or.inl ⟨e, rfl⟩
  | ok u => exact Or.inr rfl

variable (J db) in
theorem createRow_cases (body : CreateTaskRequest) (tenantId taskId : Text) (now : UtcTime) (fault : Option Stmt) :
    (∃ e, createRow J body tenantId taskId now fault db = .error e) ∨
    ∃ payloadJson,
      (∀ s ∈ db.tasks, s.id ≠ taskId ∧ sameKey tenantId body.idempotencyKey s = false) ∧
      createRow J body tenantId taskId now fault db =
        .ok ((newTask body tenantId taskId payloadJson now.isoformat, true),
          { db with tasks := db.tasks ++ [newTask body tenantId taskId payloadJson now.isoformat] }) := by
  unfold createRow
  rcases raise_or fault .now _ with ⟨e, h⟩ | h
  · exact Or.inl ⟨e, h⟩
  rw [h]
  cases J.dumps (.obj body.payload) false with
  | none => exact Or.inl ⟨_, rfl⟩
  | some payloadJson =>
    dsimp only
    rcases raise_or fault .insert _ with ⟨e, h⟩ | h
    · exact Or.inl ⟨e, h⟩
    rw [h]
    unfold insertTask
    split_ifs with hany
    · exact Or.inl ⟨_, rfl⟩
    dsimp only
    rcases raise_or fault .reread _ with ⟨e, h⟩ | h
    · exact Or.inl ⟨e, h⟩
    rw [h]
    rcases raise_or fault .commit _ with ⟨e, h⟩ | h
    · exact Or.inl ⟨e, h⟩
    refine Or.inr ⟨payloadJson, fun s hs => ?_, h⟩
    have hnot : ¬ (decide (s.id = taskId) || sameKey tenantId body.idempotencyKey s) = true :=
      fun hs' => hany (List.any_eq_true.mpr ⟨s, hs, hs'⟩)
    simpa using hnot

variable (J db) in
/-- The three outcomes of the block: it raises, it finds the row of the key, or
it inserts a row whose id and key are new. -/
theorem createBlock_cases (body : CreateTaskRequest) (tenantId taskId : Text) (now : UtcTime) (fault : Option Stmt) :
    (∃ e, createBlock J body tenantId taskId now fault db = .error e) ∨
    (∃ row ∈ db.tasks, sameKey tenantId body.idempotencyKey row = true ∧
      createBlock J body tenantId taskId now fault db = .ok ((row, false), db)) ∨
    ∃ payloadJson,
      (∀ s ∈ db.tasks, s.id ≠ taskId ∧ sameKey tenantId body.idempotencyKey s = false) ∧
      createBlock J body tenantId taskId now fault db =
        .ok ((newTask body tenantId taskId payloadJson now.isoformat, true),
          { db with tasks := db.tasks ++ [newTask body tenantId taskId payloadJson now.isoformat] }) := by
  unfold createBlock
  rcases raise_or fault .begin _ with ⟨e, h⟩ | h
  · exact Or.inl ⟨e, h⟩
  rw [h]
  have hfound : (∃ e, findExisting tenantId body.idempotencyKey fault db = .error e) ∨
      findExisting tenantId body.idempotencyKey fault db =
        .ok (db.tasks.find? (sameKey tenantId body.idempotencyKey)) := by
    unfold findExisting
    cases body.idempotencyKey with
    | none =>
      right
      rw [List.find?_eq_none.mpr fun s _ => by simp [sameKey]]
    | some key => exact raise_or fault .select _
  rcases hfound with ⟨e, h⟩ | h
  · exact Or.inl ⟨e, by rw [h]; rfl⟩
  rw [h]
  cases hrow : db.tasks.find? (sameKey tenantId body.idempotencyKey) with
  | some row =>
    have hmem := List.mem_of_find?_eq_some hrow
    have hkey := List.find?_some hrow
    rcases raise_or fault .taskOut (do raiseAt fault .commit; pure ((row, false), db)) with ⟨e, h⟩ | h
    · exact Or.inl ⟨e, h⟩
    rcases raise_or fault .commit (pure ((row, false), db)) with ⟨e, h'⟩ | h'
    · exact Or.inl ⟨e, h.trans h'⟩
    · exact Or.inr (Or.inl ⟨row, hmem, hkey, h.trans h'⟩)
  | none =>
    rcases createRow_cases J db body tenantId taskId now fault with ⟨e, h⟩ | ⟨payloadJson, hnew, h⟩
    · exact Or.inl ⟨e, h⟩
    · exact Or.inr (Or.inr ⟨payloadJson, hnew, h⟩)

variable (J db) in
/-- A row is inserted exactly when the call publishes. -/
theorem createTaskRoute_cases (body : CreateTaskRequest) (tenantId taskId : Text) (now : UtcTime)
    (fault : Option Stmt) :
    (∃ e, createTaskRoute J body tenantId taskId now fault db = (⟨.error e, false⟩, db)) ∨
    (∃ row ∈ db.tasks, sameKey tenantId body.idempotencyKey row = true ∧
      createTaskRoute J body tenantId taskId now fault db = (⟨.ok row, false⟩, db)) ∨
    ∃ payloadJson reply,
      (∀ s ∈ db.tasks, s.id ≠ taskId ∧ sameKey tenantId body.idempotencyKey s = false) ∧
      (reply = .ok (newTask body tenantId taskId payloadJson now.isoformat) ∨ ∃ e, reply = .error e) ∧
      createTaskRoute J body tenantId taskId now fault db =
        (⟨reply, true⟩,
          { db with tasks := db.tasks ++ [newTask body tenantId taskId payloadJson now.isoformat] }) := by
  unfold createTaskRoute
  cases raiseAt fault .connect with
  | error e => exact Or.inl ⟨e, rfl⟩
  | ok u =>
    unfold transaction
    rcases createBlock_cases J db body tenantId taskId now fault with
      ⟨e, h⟩ | ⟨row, hmem, hkey, h⟩ | ⟨payloadJson, hnew, h⟩
    · exact Or.inl ⟨e, by simp only [h]⟩
    · exact Or.inr (Or.inl ⟨row, hmem, hkey, by simp only [h]⟩)
    · refine Or.inr (Or.inr ⟨payloadJson, _, hnew, ?_, by simp only [h]; rfl⟩)
      rcases raise_or fault .publish _ with ⟨e, hp⟩ | hp
      · exact Or.inr ⟨e, hp⟩
      rcases raise_or fault .reply _ with ⟨e, hr⟩ | hr
      · exact Or.inr ⟨e, hp.trans hr⟩
      · exact Or.inl (hp.trans hr)

/-- Where nothing raises the route is the operation of the machine. -/
theorem createTaskRoute_none (body : CreateTaskRequest) (tenantId taskId : Text) (now : UtcTime) :
    (createTaskRoute J body tenantId taskId now none db).2 = (createTask J body tenantId taskId now db).2 ∧
    (createTaskRoute J body tenantId taskId now none db).1.reply =
      (createTask J body tenantId taskId now db).1.mapError .handler := by
  have hfind : findExisting tenantId body.idempotencyKey none db =
      .ok (db.tasks.find? (sameKey tenantId body.idempotencyKey)) := by
    unfold findExisting
    cases body.idempotencyKey with
    | none => rw [List.find?_eq_none.mpr fun s _ => by simp [sameKey]]
    | some key => rfl
  unfold createTaskRoute createTask transaction createBlock
  simp only [raiseAt, reduceCtorEq, if_false, hfind, bind, Except.bind]
  cases db.tasks.find? (sameKey tenantId body.idempotencyKey) with
  | some row => exact ⟨rfl, rfl⟩
  | none =>
    simp only [createRow, raiseAt, reduceCtorEq, if_false, bind, Except.bind]
    cases J.dumps (.obj body.payload) false with
    | none => exact ⟨rfl, rfl⟩
    | some payloadJson =>
      dsimp only
      cases insertTask (newTask body tenantId taskId payloadJson now.isoformat) db with
      | error e => exact ⟨rfl, rfl⟩
      | ok p => exact ⟨rfl, rfl⟩

/-! ### Whole runs -/

/-- What the calls answered and published, against the table. -/
structure Filed (h : List Outcome) (db : Db) : Prop where
  unique : Table.Unique Task.id db.tasks
  keyed : ∀ tenantId key, (db.tasks.filter (sameKey tenantId (some key))).length ≤ 1
  returned : ∀ tenantId key, ∀ o ∈ h, ∀ id, o.returned tenantId key = some id →
    ∃ r ∈ db.tasks, r.id = id ∧ sameKey tenantId (some key) r = true
  publisher : ∀ tenantId key, ∀ o ∈ h, o.publishes tenantId key = true →
    ∃ r ∈ db.tasks, sameKey tenantId (some key) r = true
  once : ∀ tenantId key, h.countP (Outcome.publishes tenantId key) ≤ 1

theorem filed_empty : Filed [] Db.empty where
  unique := List.nodup_nil
  keyed := fun _ _ => Nat.zero_le _
  returned := fun _ _ o ho => by cases ho
  publisher := fun _ _ o ho => by cases ho
  once := fun _ _ => Nat.zero_le _

variable {h : List Outcome}

/-- A step that rewrites rows in place and answers with a row of the table. -/
theorem Filed.rewrite (hf : Filed h db) {db' : Db} {f : Task → Task} (htasks : db'.tasks = db.tasks.map f)
    (hid : ∀ r, (f r).identity = r.identity) {o : Outcome}
    (hreturned : ∀ tenantId key id, o.returned tenantId key = some id →
      ∃ r ∈ db.tasks, r.id = id ∧ sameKey tenantId (some key) r = true)
    (hquiet : ∀ tenantId key, o.publishes tenantId key = false) : Filed (h ++ [o]) db' := by
  have hsame : ∀ tenantId key, ∀ r, sameKey tenantId key (f r) = sameKey tenantId key r :=
    fun tenantId key r => sameKey_of_identity (hid r)
  have hids : ∀ r, (f r).id = r.id := fun r => congrArg Identity.id (hid r)
  have hmem : ∀ tenantId key, (∃ r ∈ db.tasks, sameKey tenantId (some key) r = true) →
      ∃ r ∈ db'.tasks, sameKey tenantId (some key) r = true := by
    rintro tenantId key ⟨r, hr, hkey⟩
    exact ⟨f r, by rw [htasks]; exact List.mem_map_of_mem hr, by rw [hsame]; exact hkey⟩
  have hback : ∀ tenantId key id, (∃ r ∈ db.tasks, r.id = id ∧ sameKey tenantId (some key) r = true) →
      ∃ r ∈ db'.tasks, r.id = id ∧ sameKey tenantId (some key) r = true := by
    rintro tenantId key id ⟨r, hr, rfl, hkey⟩
    exact ⟨f r, by rw [htasks]; exact List.mem_map_of_mem hr, hids r, by rw [hsame]; exact hkey⟩
  refine ⟨?_, fun tenantId key => ?_, fun tenantId key o' ho' id hr => ?_, fun tenantId key o' ho' hp => ?_,
    fun tenantId key => ?_⟩
  · rw [htasks]
    exact Table.unique_map hids hf.unique
  · rw [htasks, List.filter_map, List.length_map]
    simp only [Function.comp_def, hsame]
    exact hf.keyed tenantId key
  · rcases List.mem_append.mp ho' with ho' | ho'
    · exact hback tenantId key id (hf.returned tenantId key o' ho' id hr)
    · rw [List.mem_singleton.mp ho'] at hr
      exact hback tenantId key id (hreturned tenantId key id hr)
  · rcases List.mem_append.mp ho' with ho' | ho'
    · exact hmem tenantId key (hf.publisher tenantId key o' ho' hp)
    · rw [List.mem_singleton.mp ho', hquiet] at hp
      cases hp
  · rw [List.countP_append, List.countP_singleton, hquiet]
    exact hf.once tenantId key

/-- A step that inserts a row whose id and key are new, and publishes it. -/
theorem Filed.insert (hf : Filed h db) {row : Task} (hnew : ∀ s ∈ db.tasks, s.id ≠ row.id ∧
      sameKey row.tenantId row.idempotencyKey s = false) {r : RouteReply}
    (hreply : r.reply = .ok row ∨ ∃ e, r.reply = .error e) :
    Filed (h ++ [.create row.tenantId row.idempotencyKey r]) { db with tasks := db.tasks ++ [row] } := by
  have hkeep : ∀ {p : Task → Prop}, (∃ s ∈ db.tasks, p s) → ∃ s ∈ db.tasks ++ [row], p s := by
    rintro p ⟨s, hs, hp⟩
    exact ⟨s, List.mem_append_left _ hs, hp⟩
  have hrow : ∀ tenantId key, row.tenantId = tenantId ∧ row.idempotencyKey = some key →
      sameKey tenantId (some key) row = true := by
    rintro tenantId key ⟨htenant, hkey⟩
    simp [sameKey, htenant, hkey]
  have hnone : ∀ tenantId key, row.tenantId = tenantId ∧ row.idempotencyKey = some key →
      ∀ s ∈ db.tasks, sameKey tenantId (some key) s = false := by
    rintro tenantId key ⟨htenant, hkey⟩ s hs
    have hs' := (hnew s hs).2
    rw [htenant, hkey] at hs'
    exact hs'
  refine ⟨?_, fun tenantId key => ?_, fun tenantId key o' ho' id hr => ?_, fun tenantId key o' ho' hp => ?_,
    fun tenantId key => ?_⟩
  · refine Table.unique_snoc hf.unique ?_
    rw [Table.find_none]
    exact fun s hs => (hnew s hs).1
  · rw [List.filter_append, List.length_append]
    by_cases hk : row.tenantId = tenantId ∧ row.idempotencyKey = some key
    · rw [List.filter_eq_nil_iff.mpr fun s hs => by simp [hnone tenantId key hk s hs]]
      rw [List.length_nil, Nat.zero_add]
      exact List.length_filter_le _ _
    · rw [List.filter_singleton]
      have hrow' : sameKey tenantId (some key) row = false := by
        simpa [sameKey] using hk
      rw [hrow']
      exact hf.keyed tenantId key
  · rcases List.mem_append.mp ho' with ho' | ho'
    · exact hkeep (hf.returned tenantId key o' ho' id hr)
    · rw [List.mem_singleton.mp ho'] at hr
      rcases r with ⟨reply, published⟩
      rcases hreply with rfl | ⟨e, rfl⟩
      · simp only [Outcome.returned, Option.ite_none_right_eq_some, Option.some.injEq] at hr
        exact ⟨row, by simp, hr.2, hrow tenantId key hr.1⟩
      · cases hr
  · rcases List.mem_append.mp ho' with ho' | ho'
    · exact hkeep (hf.publisher tenantId key o' ho' hp)
    · rw [List.mem_singleton.mp ho'] at hp
      simp only [Outcome.publishes, Bool.and_eq_true, decide_eq_true_eq] at hp
      exact ⟨row, by simp, hrow tenantId key hp.1⟩
  · rw [List.countP_append, List.countP_singleton]
    by_cases hp : (Outcome.create row.tenantId row.idempotencyKey r).publishes tenantId key = true
    · have hk := hp
      simp only [Outcome.publishes, Bool.and_eq_true, decide_eq_true_eq] at hk
      have hzero : h.countP (Outcome.publishes tenantId key) = 0 := by
        rw [List.countP_eq_zero]
        intro o ho hpub
        obtain ⟨s, hs, hkey⟩ := hf.publisher tenantId key o ho hpub
        rw [hnone tenantId key hk.1 s hs] at hkey
        cases hkey
      rw [hzero, if_pos hp]
    · rw [if_neg hp]
      exact hf.once tenantId key

theorem sameKey_returned {tenantId key id : Text} {t : Text} {k : Option Text} {row : Task} {published : Bool}
    (hrow : sameKey t k row = true) (hr : (Outcome.create t k ⟨.ok row, published⟩).returned tenantId key = some id) :
    row.id = id ∧ sameKey tenantId (some key) row = true := by
  simp only [Outcome.returned, Option.ite_none_right_eq_some, Option.some.injEq] at hr
  obtain ⟨⟨rfl, rfl⟩, hid⟩ := hr
  exact ⟨hid, hrow⟩

variable (J cfg) in
theorem intakeStep_filed (hf : Filed h db) (req : Request) :
    Filed (h ++ [(intakeStep J cfg db req).2]) (intakeStep J cfg db req).1 := by
  have hself : db.tasks = db.tasks.map id := (List.map_id _).symm
  cases req with
  | create body tenantId taskId now fault =>
    rcases createTaskRoute_cases J db body tenantId taskId now fault with
      ⟨e, hout⟩ | ⟨row, hmem, hkey, hout⟩ | ⟨payloadJson, reply, hnew, hreply, hout⟩ <;>
      simp only [intakeStep, hout]
    · refine hf.rewrite hself (fun _ => rfl) (fun _ _ _ hr => by cases hr) fun _ _ => ?_
      simp [Outcome.publishes]
    · refine hf.rewrite hself (fun _ => rfl) (fun _ _ _ hr => ?_) fun _ _ => ?_
      · exact ⟨row, hmem, sameKey_returned hkey hr⟩
      · simp [Outcome.publishes]
    · have hinsert := hf.insert (r := ⟨reply, true⟩) hnew hreply
      exact hinsert
  | other op hop =>
    obtain ⟨f, htasks, hid⟩ := @perform_map J cfg db hf.unique op hop
    exact hf.rewrite htasks hid (fun _ _ _ hr => by cases hr) fun _ _ => rfl

theorem run_filed (J : JsonLib) (cfg : Config) (reqs : List Request) :
    Filed ((intake J cfg).trace Db.empty reqs) ((intake J cfg).run Db.empty reqs) :=
  (intake J cfg).history_invariant (P := Filed) filed_empty (fun _ _ req hf => intakeStep_filed J cfg hf req) reqs

/-- No operation takes a row away or changes what identifies it. -/
theorem intakeStep_identity (hu : Table.Unique Task.id db.tasks) (req : Request) {r : Task} (hr : r ∈ db.tasks) :
    ∃ r' ∈ (intakeStep J cfg db req).1.tasks, r'.identity = r.identity := by
  cases req with
  | create body tenantId taskId now fault =>
    rcases createTaskRoute_cases J db body tenantId taskId now fault with
      ⟨e, hout⟩ | ⟨row, -, -, hout⟩ | ⟨payloadJson, reply, -, -, hout⟩ <;>
      simp only [intakeStep, hout]
    · exact ⟨r, hr, rfl⟩
    · exact ⟨r, hr, rfl⟩
    · exact ⟨r, List.mem_append_left _ hr, rfl⟩
  | other op hop =>
    obtain ⟨f, htasks, hid⟩ := @perform_map J cfg db hu op hop
    refine ⟨f r, ?_, hid r⟩
    simp only [intakeStep, htasks]
    exact List.mem_map_of_mem hr

theorem run_identity (hf : Filed h db) (later : List Request) {r : Task} (hr : r ∈ db.tasks) :
    ∃ r' ∈ ((intake J cfg).run db later).tasks, r'.identity = r.identity := by
  induction later generalizing h db r with
  | nil => exact ⟨r, hr, rfl⟩
  | cons req later ih =>
    obtain ⟨s, hs, hsid⟩ := @intakeStep_identity J cfg db hf.unique req r hr
    obtain ⟨r', hr', hid⟩ := ih (intakeStep_filed J cfg hf req) hs
    exact ⟨r', hr', hid.trans hsid⟩

end Steps

/-- Over every run: a key has one row; the calls for it that return give the id
of that row; the row keeps its id, tenant, key and payload; a call whose
transaction raises changes nothing; and only the call that inserted the row
publishes it. -/
theorem create_task_idempotent (J : JsonLib) (cfg : Config) (reqs : List Request) :
    let m := intake J cfg
    let db := m.run Db.empty reqs
    (∀ tenantId key, (db.tasks.filter (sameKey tenantId (some key))).length ≤ 1) ∧
    (∀ tenantId key, ∀ o ∈ m.trace Db.empty reqs, ∀ o' ∈ m.trace Db.empty reqs, ∀ id id',
      o.returned tenantId key = some id → o'.returned tenantId key = some id' → id = id') ∧
    (∀ r ∈ db.tasks, ∀ later, ∃ r' ∈ (m.run db later).tasks, r'.id = r.id ∧ r'.tenantId = r.tenantId ∧
      r'.idempotencyKey = r.idempotencyKey ∧ r'.payloadJson = r.payloadJson) ∧
    (∀ body tenantId taskId now fault e,
      fault = some .connect ∨ (transaction (createBlock J body tenantId taskId now fault) db).1 = .error e →
      (createTaskRoute J body tenantId taskId now fault db).2 = db) ∧
    (∀ tenantId key, (m.trace Db.empty reqs).countP (Outcome.publishes tenantId key) ≤ 1) ∧
    (∀ body tenantId taskId now fault, (createTaskRoute J body tenantId taskId now fault db).1.published = true →
      ∃ row, (createTaskRoute J body tenantId taskId now fault db).2.tasks = db.tasks ++ [row] ∧
        row.tenantId = tenantId ∧ row.idempotencyKey = body.idempotencyKey ∧ row.status = .pending) := by
  intro m db
  have hf : Filed (m.trace Db.empty reqs) db := run_filed J cfg reqs
  refine ⟨hf.keyed, ?_, ?_, ?_, hf.once, ?_⟩
  · intro tenantId key o ho o' ho' id id' hid hid'
    obtain ⟨r, hr, rfl, hkey⟩ := hf.returned tenantId key o ho id hid
    obtain ⟨r', hr', rfl, hkey'⟩ := hf.returned tenantId key o' ho' id' hid'
    have hmem : r ∈ db.tasks.filter (sameKey tenantId (some key)) := List.mem_filter.mpr ⟨hr, hkey⟩
    have hmem' : r' ∈ db.tasks.filter (sameKey tenantId (some key)) := List.mem_filter.mpr ⟨hr', hkey'⟩
    obtain ⟨x, hx⟩ := List.length_eq_one_iff.mp
      (le_antisymm (hf.keyed tenantId key) (List.length_pos_of_mem hmem))
    rw [hx, List.mem_singleton] at hmem hmem'
    rw [hmem, hmem']
  · intro r hr later
    obtain ⟨r', hr', hid⟩ := @run_identity J cfg _ _ hf later r hr
    simp only [Task.identity, Identity.mk.injEq] at hid
    exact ⟨r', hr', hid⟩
  · intro body tenantId taskId now fault e hraise
    rcases hraise with rfl | hraise
    · rfl
    · rcases createTaskRoute_cases J db body tenantId taskId now fault with
        ⟨e', hout⟩ | ⟨row, -, -, hout⟩ | ⟨payloadJson, reply, -, -, hout⟩
      · rw [hout]
      · rw [hout]
      · -- a call that published has committed
        unfold createTaskRoute at hout ⊢
        cases raiseAt fault .connect with
        | error e' => rfl
        | ok u =>
          unfold transaction at hraise hout ⊢
          cases hb : createBlock J body tenantId taskId now fault db with
          | error e' => rfl
          | ok p =>
            rw [hb] at hraise
            cases hraise
  · intro body tenantId taskId now fault hpub
    rcases createTaskRoute_cases J db body tenantId taskId now fault with
      ⟨e, hout⟩ | ⟨row, -, -, hout⟩ | ⟨payloadJson, reply, -, -, hout⟩
    · rw [hout] at hpub
      cases hpub
    · rw [hout] at hpub
      cases hpub
    · rw [hout]
      exact ⟨_, rfl, rfl, rfl, rfl⟩

end AgentWorkflow.ControlPlane
