import AgentWorkflow.ControlPlane.Database
import AgentWorkflow.Lib.Machine

/-!
# The session registry (`session_manager.py`, `expire_stale_sessions`)

`create_session` runs an expiry transaction and then an insert transaction; any
other transactions may come between them. A call of it is a record that is advanced
one transaction at a time. `json.dumps` and SQLite's `json_set` are parameters that
may fail.
-/

namespace AgentWorkflow.ControlPlane.Sessions
open AgentWorkflow.Lib AgentWorkflow.Lib.Calendar

inductive SessionStatus where
  | active
  | expired
  | terminated
deriving DecidableEq, Repr

structure Session where
  sessionId : Text
  userId : Text
  sessionType : Text
  status : SessionStatus
  resourcesJson : Text
  metadataJson : Text
  createdAt : Text
  lastHeartbeat : Text
deriving DecidableEq

/-- `MAX_SESSIONS_PER_USER`, the limit of the manager and `SESSION_STALE_SECONDS`. -/
structure Limits where
  maxSessionsPerUser : ℕ
  maxSessions : ℕ
  sessionStaleSeconds : ℕ

structure Codec where
  dumps : Json Char → Option Text
  jsonSet : Text → Text → Text → Option Text

inductive SessionError where
  | invalidType
  | emptyUser
  | overflow
  | perUserLimit
  | globalLimit
  | notSerializable
  | integrity
  | database
deriving DecidableEq

/-- `strftime("%Y-%m-%d %H:%M:%S")`. -/
def sessionTimestamp (t : UtcTime) : Text :=
  let tod := t.micros % microsPerDay
  isoDate (dateOf (t.micros / microsPerDay)) (' ' :: (pad 2 (tod / 3600000000) ++
    ':' :: (pad 2 (tod / 60000000 % 60) ++ ':' :: pad 2 (tod / 1000000 % 60))))

def isActive (r : Session) : Bool := decide (r.status = .active)

def ownedBy (userId : Text) (r : Session) : Bool := decide (r.userId = userId)

/-! ### The transactions -/

def isStale (cutoff : Text) (r : Session) : Bool := isActive r && decide (r.lastHeartbeat ≤ cutoff)

def expireStaleSessions (cfg : Limits) (now : UtcTime) (rows : List Session) :
    Except SessionError (List Text) × List Session :=
  match now.subSeconds cfg.sessionStaleSeconds with
  | none => (.error .overflow, rows)
  | some cutoff =>
    let ids := (rows.filter (isStale (sessionTimestamp cutoff))).map Session.sessionId
    (.ok ids, Table.update (fun r => decide (r.sessionId ∈ ids)) (fun r => { r with status := .expired }) rows)

def validSessionTypes : List Text := ["interactive".toList, "batch".toList, "review".toList]

def hints (cpu mem disk : ℤ) : Json Char :=
  .obj [("cpu_limit".toList, .int cpu), ("mem_limit_mb".toList, .int mem), ("disk_limit_mb".toList, .int disk)]

def defaultResourceHints (sessionType : Text) : Json Char :=
  if sessionType = "interactive".toList then hints 2 2048 1024
  else if sessionType = "batch".toList then hints 4 8192 4096
  else hints 2 4096 2048

structure CreateRequest where
  userId : Text
  sessionType : Text
  metadata : List (Text × Json Char)

/-- The checks before any transaction. -/
def CreateRequest.check (req : CreateRequest) : Except SessionError Unit :=
  if req.sessionType ∉ validSessionTypes then .error .invalidType
  else if req.userId = [] then .error .emptyUser
  else .ok ()

def newSession (req : CreateRequest) (sessionId resources metadata now : Text) : Session :=
  ⟨sessionId, req.userId, req.sessionType, .active, resources, metadata, now, now⟩

def insertBlock (cfg : Limits) (codec : Codec) (req : CreateRequest) (sessionId now : Text) (rows : List Session) :
    Except SessionError (Session × List Session) :=
  if cfg.maxSessionsPerUser ≤ rows.countP (fun r => ownedBy req.userId r && isActive r) then .error .perUserLimit
  else if cfg.maxSessions ≤ rows.countP isActive then .error .globalLimit
  else match codec.dumps (defaultResourceHints req.sessionType), codec.dumps (.obj req.metadata) with
    | some resources, some metadata =>
      if rows.any fun r => decide (r.sessionId = sessionId) then .error .integrity
      else .ok (newSession req sessionId resources metadata now,
        rows ++ [newSession req sessionId resources metadata now])
    | _, _ => .error .notSerializable

/-- The insert transaction of `create_session`. -/
def insertSession (cfg : Limits) (codec : Codec) (req : CreateRequest) (sessionId now : Text) :
    List Session → Except SessionError Session × List Session :=
  transaction (insertBlock cfg codec req sessionId now)

def named (sessionId userId : Text) (r : Session) : Bool := decide (r.sessionId = sessionId) && ownedBy userId r

def heartbeat (sessionId userId : Text) (now : UtcTime) (rows : List Session) : Bool × List Session :=
  let hit := fun r => named sessionId userId r && isActive r
  (decide (Table.rowcount hit rows ≠ 0),
    Table.update hit (fun r => { r with lastHeartbeat := sessionTimestamp now }) rows)

def terminatedReason (reason : Text) : Text := if reason = [] then "user_request".toList else reason

/-- `terminate` does not look at the status. A row on which `json_set` fails makes
the statement fail. -/
def terminate (codec : Codec) (sessionId userId reason : Text) (now : UtcTime) (rows : List Session) :
    Except SessionError Bool × List Session :=
  let hit := named sessionId userId
  let set := fun r : Session => codec.jsonSet r.metadataJson (terminatedReason reason) (sessionTimestamp now)
  if rows.any fun r => hit r && (set r).isNone then (.error .database, rows)
  else (.ok (decide (Table.rowcount hit rows ≠ 0)),
    Table.update hit (fun r =>
      { r with status := .terminated, metadataJson := (set r).getD r.metadataJson }) rows)

/-! ### Calls of `create_session` -/

inductive Pc where
  | expiry
  | insert
  | returned
  | raised (e : SessionError)
deriving DecidableEq

structure Call where
  req : CreateRequest
  sessionId : Text
  now : Text
  pc : Pc

structure State where
  rows : List Session
  calls : List Call

def State.init : State := ⟨[], []⟩

def createSession (req : CreateRequest) (sessionId : Text) (now : UtcTime) : Call :=
  ⟨req, sessionId, sessionTimestamp now,
    match req.check with
    | .ok _ => .expiry
    | .error e => .raised e⟩

/-- The next transaction of a call: its result and the rows. `locked` is a failure
of the database before the transaction. -/
def Call.next (cfg : Limits) (codec : Codec) (locked : Bool) (now : UtcTime) (c : Call) (rows : List Session) :
    Pc × List Session :=
  match c.pc with
  | .expiry =>
    if locked then (.raised .database, rows)
    else match expireStaleSessions cfg now rows with
      | (.ok _, rows) => (.insert, rows)
      | (.error e, rows) => (.raised e, rows)
  | .insert =>
    if locked then (.raised .database, rows)
    else match insertSession cfg codec c.req c.sessionId c.now rows with
      | (.ok _, rows) => (.returned, rows)
      | (.error e, rows) => (.raised e, rows)
  | pc => (pc, rows)

inductive Op where
  | createSession (req : CreateRequest) (sessionId : Text) (now : UtcTime)
  | advance (i : ℕ) (locked : Bool) (now : UtcTime)
  | heartbeat (sessionId userId : Text) (now : UtcTime)
  | terminate (sessionId userId reason : Text) (now : UtcTime)
  | expireStaleSessions (now : UtcTime)

def advance (cfg : Limits) (codec : Codec) (i : ℕ) (locked : Bool) (now : UtcTime) (s : State) : State :=
  match s.calls[i]? with
  | none => s
  | some c =>
    let out := c.next cfg codec locked now s.rows
    ⟨out.2, s.calls.set i { c with pc := out.1 }⟩

def step (cfg : Limits) (codec : Codec) (s : State) : Op → State × Unit
  | .createSession req sessionId now => ({ s with calls := s.calls ++ [createSession req sessionId now] }, ())
  | .advance i locked now => (advance cfg codec i locked now s, ())
  | .heartbeat sessionId userId now => ({ s with rows := (heartbeat sessionId userId now s.rows).2 }, ())
  | .terminate sessionId userId reason now =>
    ({ s with rows := (terminate codec sessionId userId reason now s.rows).2 }, ())
  | .expireStaleSessions now => ({ s with rows := (expireStaleSessions cfg now s.rows).2 }, ())

def registry (cfg : Limits) (codec : Codec) : Machine State Op Unit := ⟨step cfg codec⟩

/-! ### What a transaction does to the rows -/

/-- Everything a transaction can do: rows change in place without becoming active,
or an active row with a new id is added within both limits. -/
inductive Change (cfg : Limits) : List Session → List Session → Prop where
  | inPlace {rows : List Session} (f : Session → Session) (id : ∀ r, (f r).sessionId = r.sessionId)
      (user : ∀ r, (f r).userId = r.userId) (status : ∀ r, (f r).status = .active → r.status = .active) :
      Change cfg rows (rows.map f)
  | add {rows : List Session} (r : Session) (fresh : ∀ q ∈ rows, q.sessionId ≠ r.sessionId)
      (active : r.status = .active)
      (user : rows.countP (fun q => ownedBy r.userId q && isActive q) < cfg.maxSessionsPerUser)
      (total : rows.countP isActive < cfg.maxSessions) : Change cfg rows (rows ++ [r])

section Changes
variable {cfg : Limits} {codec : Codec} {rows : List Session}

theorem Change.refl : Change cfg rows rows := by
  have h : Change cfg rows (rows.map id) := .inPlace id (fun _ => rfl) (fun _ => rfl) fun _ h => h
  rwa [List.map_id] at h

theorem Change.update (p : Session → Bool) (f : Session → Session) (hid : ∀ r, (f r).sessionId = r.sessionId)
    (huser : ∀ r, (f r).userId = r.userId) (hstatus : ∀ r, p r = true → (f r).status = .active → r.status = .active) :
    Change cfg rows (Table.update p f rows) := by
  refine .inPlace (fun r => if p r then f r else r) (fun r => ?_) (fun r => ?_) fun r hr => ?_
  · split
    · exact hid r
    · rfl
  · split
    · exact huser r
    · rfl
  · split at hr
    · next hp => exact hstatus r hp hr
    · exact hr

theorem expire_change (now : UtcTime) : Change cfg rows (expireStaleSessions cfg now rows).2 := by
  unfold expireStaleSessions
  cases now.subSeconds cfg.sessionStaleSeconds with
  | none => exact .refl
  | some cutoff => exact .update _ _ (fun _ => rfl) (fun _ => rfl) fun _ _ h => absurd h (by simp)

theorem heartbeat_change (sessionId userId : Text) (now : UtcTime) :
    Change cfg rows (heartbeat sessionId userId now rows).2 :=
  .update _ _ (fun _ => rfl) (fun _ => rfl) fun _ _ h => h

theorem terminate_change (sessionId userId reason : Text) (now : UtcTime) :
    Change cfg rows (terminate codec sessionId userId reason now rows).2 := by
  unfold terminate
  dsimp only
  split
  · exact .refl
  · exact .update _ _ (fun _ => rfl) (fun _ => rfl) fun _ _ h => absurd h (by simp)

theorem insertBlock_cases (req : CreateRequest) (sessionId now : Text) :
    (∃ e, insertBlock cfg codec req sessionId now rows = .error e) ∨
    (∃ r, insertBlock cfg codec req sessionId now rows = .ok (r, rows ++ [r]) ∧ Change cfg rows (rows ++ [r])) := by
  unfold insertBlock
  split
  · exact Or.inl ⟨_, rfl⟩
  next huser =>
  split
  · exact Or.inl ⟨_, rfl⟩
  next htotal =>
  split
  · split
    · exact Or.inl ⟨_, rfl⟩
    next hany =>
    refine Or.inr ⟨_, rfl, .add _ (fun q hq he => hany ?_) rfl (not_le.mp huser) (not_le.mp htotal)⟩
    exact List.any_eq_true.mpr ⟨q, hq, decide_eq_true he⟩
  · exact Or.inl ⟨_, rfl⟩

theorem insert_cases (req : CreateRequest) (sessionId now : Text) :
    (∃ e, insertSession cfg codec req sessionId now rows = (.error e, rows)) ∨
    (∃ r, insertSession cfg codec req sessionId now rows = (.ok r, rows ++ [r]) ∧ Change cfg rows (rows ++ [r])) := by
  have hblock : _ ∨ ∃ r, insertBlock cfg codec req sessionId now rows = _ ∧ Change cfg rows _ :=
    insertBlock_cases req sessionId now
  rcases hblock with ⟨e, h⟩ | ⟨r, h, hc⟩
  · exact Or.inl ⟨e, by simp only [insertSession, transaction, h]⟩
  · exact Or.inr ⟨r, by simp only [insertSession, transaction, h], hc⟩

/-- The ids of the rows an expiry leaves. -/
theorem expire_ids (now : UtcTime) :
    (expireStaleSessions cfg now rows).2.map Session.sessionId = rows.map Session.sessionId := by
  unfold expireStaleSessions
  cases now.subSeconds cfg.sessionStaleSeconds with
  | none => rfl
  | some cutoff =>
    dsimp only [Table.update]
    rw [List.map_map]
    refine List.map_congr_left fun r _ => ?_
    simp only [Function.comp_apply]
    split <;> rfl

/-- A step of a call adds a row only when the call returns with it. -/
theorem next_cases (locked : Bool) (now : UtcTime) (c : Call) :
    Change cfg rows (c.next cfg codec locked now rows).2 ∧
    ((c.next cfg codec locked now rows).1 = .returned ∨
      (c.next cfg codec locked now rows).2.map Session.sessionId = rows.map Session.sessionId) ∧
    (c.pc = .returned → (c.next cfg codec locked now rows).1 = .returned) := by
  unfold Call.next
  cases hpc : c.pc with
  | expiry =>
    have hc : Change cfg rows (expireStaleSessions cfg now rows).2 := expire_change now
    have hids : (expireStaleSessions cfg now rows).2.map _ = rows.map Session.sessionId := expire_ids now
    by_cases hl : locked = true
    · simp only [if_pos hl]
      exact ⟨.refl, Or.inr trivial, fun h => by cases h⟩
    · simp only [if_neg hl]
      rcases hout : expireStaleSessions cfg now rows with ⟨_ | ids, rows'⟩ <;> rw [hout] at hc hids
      · exact ⟨hc, Or.inr hids, fun h => by cases h⟩
      · exact ⟨hc, Or.inr hids, fun h => by cases h⟩
  | insert =>
    by_cases hl : locked = true
    · simp only [if_pos hl]
      exact ⟨.refl, Or.inr trivial, fun h => by cases h⟩
    · simp only [if_neg hl]
      have hinsert : _ ∨ ∃ r, insertSession cfg codec c.req c.sessionId c.now rows = _ ∧ Change cfg rows _ :=
        insert_cases c.req c.sessionId c.now
      rcases hinsert with ⟨e, h⟩ | ⟨r, h, hc⟩
      · rw [h]
        exact ⟨.refl, Or.inr rfl, fun h => by cases h⟩
      · rw [h]
        exact ⟨hc, Or.inl rfl, fun h => by cases h⟩
  | returned => exact ⟨.refl, Or.inl rfl, fun _ => rfl⟩
  | raised e => exact ⟨.refl, Or.inr rfl, fun h => by cases h⟩

/-- Both limits. -/
structure Within (cfg : Limits) (rows : List Session) : Prop where
  user : ∀ u, rows.countP (fun r => ownedBy u r && isActive r) ≤ cfg.maxSessionsPerUser
  total : rows.countP isActive ≤ cfg.maxSessions

theorem Change.within {rows' : List Session} (h : Change cfg rows rows') (hw : Within cfg rows) : Within cfg rows' := by
  cases h with
  | inPlace f id user status =>
    refine ⟨fun u => ?_, ?_⟩
    · rw [List.countP_map]
      refine (List.countP_mono_left fun r _ hr => ?_).trans (hw.user u)
      simp only [Function.comp_apply, ownedBy, isActive, user, Bool.and_eq_true, decide_eq_true_eq] at hr ⊢
      exact ⟨hr.1, status r hr.2⟩
    · rw [List.countP_map]
      refine (List.countP_mono_left fun r _ hr => ?_).trans hw.total
      simp only [Function.comp_apply, isActive, decide_eq_true_eq] at hr ⊢
      exact status r hr
  | add r fresh active user total =>
    refine ⟨fun u => ?_, ?_⟩
    · rw [List.countP_append, List.countP_singleton]
      by_cases hu : r.userId = u
      · subst hu
        split <;> omega
      · rw [if_neg (by simp [ownedBy, hu])]
        exact hw.user u
    · rw [List.countP_append, List.countP_singleton]
      split <;> omega

theorem Change.unique {rows' : List Session} (h : Change cfg rows rows') (hu : Table.Unique Session.sessionId rows) :
    Table.Unique Session.sessionId rows' := by
  cases h with
  | inPlace f id user status => exact Table.unique_map id hu
  | add r fresh active user total => exact Table.unique_snoc hu (Table.find_none.mpr fresh)

/-- The row of an id is there and not active. -/
def Closed (sessionId : Text) (rows : List Session) : Prop :=
  (∃ r ∈ rows, r.sessionId = sessionId) ∧ ∀ r ∈ rows, r.sessionId = sessionId → r.status ≠ .active

theorem Change.closed {rows' : List Session} (h : Change cfg rows rows') {sessionId : Text}
    (hc : Closed sessionId rows) : Closed sessionId rows' := by
  obtain ⟨⟨q, hq, hid⟩, hall⟩ := hc
  cases h with
  | inPlace f id user status =>
    refine ⟨⟨f q, List.mem_map_of_mem hq, (id q).trans hid⟩, fun r hr he hactive => ?_⟩
    obtain ⟨p, hp, rfl⟩ := List.mem_map.mp hr
    exact hall p hp ((id p).symm.trans he) (status p hactive)
  | add r fresh active user total =>
    refine ⟨⟨q, List.mem_append_left _ hq, hid⟩, fun r' hr he => ?_⟩
    rcases List.mem_append.mp hr with hr | hr
    · exact hall r' hr he
    · rw [List.mem_singleton.mp hr] at he
      exact absurd (hid.trans he.symm) (fresh q hq)

end Changes

/-! ### Runs -/

section Runs
variable {cfg : Limits} {codec : Codec} {s : State}

theorem step_change (op : Op) : Change cfg s.rows ((registry cfg codec).step s op).1.rows := by
  cases op with
  | createSession req sessionId now => exact .refl
  | advance i locked now =>
    change Change cfg s.rows (advance cfg codec i locked now s).rows
    unfold advance
    cases s.calls[i]? with
    | none => exact .refl
    | some c => exact (next_cases locked now c).1
  | heartbeat sessionId userId now => exact heartbeat_change sessionId userId now
  | terminate sessionId userId reason now => exact terminate_change sessionId userId reason now
  | expireStaleSessions now => exact expire_change now

/-- A call that has returned stays so. -/
theorem returned_step (op : Op) {i : ℕ} (h : ∃ c, s.calls[i]? = some c ∧ c.pc = .returned) :
    ∃ c, ((registry cfg codec).step s op).1.calls[i]? = some c ∧ c.pc = .returned := by
  obtain ⟨c, hc, hpc⟩ := h
  cases op with
  | createSession req sessionId now =>
    refine ⟨c, ?_, hpc⟩
    rw [← hc]
    exact List.getElem?_append_left (List.getElem?_eq_some_iff.mp hc).1
  | advance j locked now =>
    change ∃ c, (advance cfg codec j locked now s).calls[i]? = some c ∧ c.pc = .returned
    unfold advance
    cases hj : s.calls[j]? with
    | none => exact ⟨c, hc, hpc⟩
    | some d =>
      dsimp only
      by_cases hij : j = i
      · subst hij
        rw [hc] at hj
        cases hj
        refine ⟨_, List.getElem?_set_self (List.getElem?_eq_some_iff.mp hc).1, ?_⟩
        exact (next_cases locked now c).2.2 hpc
      · exact ⟨c, by rw [List.getElem?_set_ne hij]; exact hc, hpc⟩
  | heartbeat sessionId userId now => exact ⟨c, hc, hpc⟩
  | terminate sessionId userId reason now => exact ⟨c, hc, hpc⟩
  | expireStaleSessions now => exact ⟨c, hc, hpc⟩

theorem returned_run {i : ℕ} (ops : List Op) (h : ∃ c, s.calls[i]? = some c ∧ c.pc = .returned) :
    ∃ c, ((registry cfg codec).run s ops).calls[i]? = some c ∧ c.pc = .returned :=
  (registry cfg codec).run_invariant (P := fun s => ∃ c, s.calls[i]? = some c ∧ c.pc = .returned)
    (fun _ op h => returned_step op h) s ops h

/-- A step of a call that adds a row makes the call return. -/
theorem advance_adds (i : ℕ) (locked : Bool) (now : UtcTime)
    (h : ((registry cfg codec).step s (.advance i locked now)).1.rows.map Session.sessionId ≠
      s.rows.map Session.sessionId) :
    ∃ c, ((registry cfg codec).step s (.advance i locked now)).1.calls[i]? = some c ∧ c.pc = .returned := by
  change (advance cfg codec i locked now s).rows.map Session.sessionId ≠ _ at h
  change ∃ c, (advance cfg codec i locked now s).calls[i]? = some c ∧ c.pc = .returned
  unfold advance at h ⊢
  cases hc : s.calls[i]? with
  | none =>
    rw [hc] at h
    exact absurd rfl h
  | some c =>
    rw [hc] at h
    refine ⟨_, List.getElem?_set_self (List.getElem?_eq_some_iff.mp hc).1, ?_⟩
    have hnext : Change cfg s.rows (c.next cfg codec locked now s.rows).2 ∧ _ := next_cases locked now c
    rcases hnext.2.1 with hret | hids
    · exact hret
    · exact absurd hids h

theorem within_run (ops : List Op) : Within cfg ((registry cfg codec).run State.init ops).rows :=
  (registry cfg codec).run_invariant (P := fun s => Within cfg s.rows) (fun _ op h => (step_change op).within h) _ ops
    ⟨fun _ => Nat.zero_le _, Nat.zero_le _⟩

theorem unique_run (ops : List Op) :
    Table.Unique Session.sessionId ((registry cfg codec).run State.init ops).rows :=
  (registry cfg codec).run_invariant (P := fun s => Table.Unique Session.sessionId s.rows)
    (fun _ op h => (step_change op).unique h) _ ops List.nodup_nil

end Runs

/-- In every run: each user holds at most the per-user limit of active sessions and
all users together at most the global one; a session that is not active any more
never becomes active again; and no step of a `create_session` call that raises adds
a row. -/
theorem session_capacity (cfg : Limits) (codec : Codec) (ops : List Op) :
    let m := registry cfg codec
    Within cfg (m.run State.init ops).rows ∧
    (∀ ops₁ ops₂, ops = ops₁ ++ ops₂ → ∀ r ∈ (m.run State.init ops₁).rows, r.status ≠ .active →
      Closed r.sessionId (m.run State.init ops).rows) ∧
    ∀ i c e, (m.run State.init ops).calls[i]? = some c → c.pc = .raised e →
      ∀ ops₁ locked now ops₂, ops = ops₁ ++ .advance i locked now :: ops₂ →
        (m.run State.init (ops₁ ++ [.advance i locked now])).rows.map Session.sessionId =
          (m.run State.init ops₁).rows.map Session.sessionId := by
  intro m
  refine ⟨within_run ops, ?_, ?_⟩
  · rintro ops₁ ops₂ rfl r hr hstatus
    rw [Machine.run_append]
    refine m.run_invariant (P := fun s => Closed r.sessionId s.rows) (fun _ op h => (step_change op).closed h) _ ops₂ ?_
    refine ⟨⟨r, hr, rfl⟩, fun q hq he => ?_⟩
    have hsame : q = r := by
      have hu : Table.Unique Session.sessionId (m.run State.init ops₁).rows := unique_run ops₁
      have hfind := Table.find_of_mem hu hq
      rw [he, Table.find_of_mem hu hr] at hfind
      exact (Option.some.inj hfind).symm
    rw [hsame]
    exact hstatus
  · rintro i c e hc hpc ops₁ locked now ops₂ rfl
    by_contra hadds
    rw [Machine.run_snoc] at hadds
    obtain ⟨d, hd, hret⟩ := returned_run ops₂ (advance_adds i locked now hadds)
    rw [Machine.run_append, Machine.run_cons] at hc
    rw [show (m.run (m.step (m.run State.init ops₁) (.advance i locked now)).1 ops₂).calls[i]? = some d from hd] at hc
    cases hc
    rw [hret] at hpc
    cases hpc

end AgentWorkflow.ControlPlane.Sessions
