import AgentWorkflow.Workflows.SchedulerInvariant

/-!
# The run-state file

`edit_run_state` reads the file under the lock, runs the command and replaces the
file. `load_run_state` answers every file that it cannot read with a fresh state,
which the command then stores in its place.
-/

namespace AgentWorkflow.Workflows.Scheduler
open AgentWorkflow.Lib AgentWorkflow.Lib.Calendar

/-- What the bytes of the file are. In a `state` a key that is left out stands for
its empty value, as the `setdefault` and `get` of the commands read it. -/
inductive Content where
  | state (s : RunState)
  | undecodable
  | malformed
  | notObject
  /-- `json.loads` raises something else: too many digits, too deep -/
  | rejected
deriving DecidableEq

/-- What the system answers to `exists()` and `read_text()`. -/
inductive Access where
  | served
  | statRaises
  | statFails
  | readFails
deriving DecidableEq, Repr

structure Edit extends Invocation where
  access : Access
  sessionId : Text
  startedAt : Text

def Edit.fresh (e : Edit) : RunState := defaultState e.sessionId e.startedAt

/-- `none` where `load_run_state` raises. -/
def loadRunState (e : Edit) (file : Option Content) : Option RunState :=
  match e.access, file with
  | .statRaises, _ => none
  | .statFails, _ => some e.fresh
  | .readFails, _ => some e.fresh
  | .served, some (.state s) => some s
  | .served, some .rejected => none
  | .served, _ => some e.fresh

def Reply.isFailed : Reply → Bool
  | .failed _ => true
  | _ => false

structure Outcome where
  reply : Reply
  saved : Bool

/-- An error or an exit in the body leaves the file alone. -/
def editRunState (e : Edit) (file : Option Content) : Option Content × Outcome :=
  match loadRunState e file with
  | none => (file, ⟨.failed .storage, false⟩)
  | some s =>
    let r := step s e.toInvocation
    if r.2.isFailed then (file, ⟨r.2, false⟩) else (some (.state r.1), ⟨r.2, true⟩)

def fileMachine : Machine (Option Content) Edit Outcome := ⟨fun file e => editRunState e file⟩

def readsState (e : Edit) (file : Option Content) : Prop := ∃ s, file = some (.state s) ∧ e.access = .served

/-! ### What a command keeps -/

structure SameTask (t u : Task) : Prop where
  id : u.id = t.id
  description : u.description = t.description
  priority : u.priority = t.priority
  createdAt : u.createdAt = t.createdAt
  depends : u.depends = t.depends
  group : u.group = t.group

structure SameBatch (b c : Batch) : Prop where
  id : c.id = b.id
  mode : c.mode = b.mode
  startedAt : c.startedAt = b.startedAt
  taskIds : c.taskIds = b.taskIds

structure Includes (s s' : RunState) : Prop where
  tasks : ∀ t ∈ s.backlog, ∃ u ∈ s'.backlog, SameTask t u
  batches : ∀ b ∈ s.batches, ∃ c ∈ s'.batches, SameBatch b c

theorem SameTask.refl (t : Task) : SameTask t t := ⟨rfl, rfl, rfl, rfl, rfl, rfl⟩

theorem SameBatch.refl (b : Batch) : SameBatch b b := ⟨rfl, rfl, rfl, rfl⟩

theorem Includes.refl (s : RunState) : Includes s s :=
  ⟨fun t ht => ⟨t, ht, SameTask.refl t⟩, fun b hb => ⟨b, hb, SameBatch.refl b⟩⟩

theorem Includes.trans {r s t : RunState} (h : Includes r s) (h' : Includes s t) : Includes r t := by
  constructor
  · intro a ha
    obtain ⟨b, hb, hab⟩ := h.tasks a ha
    obtain ⟨c, hc, hbc⟩ := h'.tasks b hb
    exact ⟨c, hc, hbc.id.trans hab.id, hbc.description.trans hab.description, hbc.priority.trans hab.priority,
      hbc.createdAt.trans hab.createdAt, hbc.depends.trans hab.depends, hbc.group.trans hab.group⟩
  · intro a ha
    obtain ⟨b, hb, hab⟩ := h.batches a ha
    obtain ⟨c, hc, hbc⟩ := h'.batches b hb
    exact ⟨c, hc, hbc.id.trans hab.id, hbc.mode.trans hab.mode, hbc.startedAt.trans hab.startedAt,
      hbc.taskIds.trans hab.taskIds⟩

theorem sameTask_claim (timestamp batchId : Text) (selected : List Task) (t : Task) :
    SameTask t (claim timestamp batchId selected t) := by
  unfold claim
  split
  · exact ⟨rfl, rfl, rfl, rfl, rfl, rfl⟩
  · exact SameTask.refl t

theorem sameBatch_finish (backlog : List Task) (timestamp : Text) (b : Batch) :
    SameBatch b (finishBatch backlog timestamp b) := by
  unfold finishBatch
  split
  · exact ⟨rfl, rfl, rfl, rfl⟩
  · exact SameBatch.refl b

/-- A batch is started or finished, or the batches are as before. -/
theorem step_batches (s : RunState) (i : Invocation) :
    (step s i).1.batches = s.batches ∨ (∃ b, (step s i).1.batches = s.batches ++ [b]) ∨
      (step s i).1.batches = s.batches.map (finishBatch s.backlog i.now) := by
  unfold step
  split
  · exact Or.inl rfl
  · unfold perform
    cases i.command with
    | add description priority depends group => exact Or.inl rfl
    | complete taskId => exact Or.inl rfl
    | batchStart modeName =>
      obtain ⟨hsame, -⟩ | ⟨-, mode, n, heq⟩ := cmdBatchStart_cases modeName i.loadMode i.now s
      · exact Or.inl (by rw [hsame])
      · exact Or.inr (Or.inl ⟨_, by simp only [heq]; rfl⟩)
    | batchComplete =>
      obtain ⟨hsame, -⟩ | ⟨-, heq, -⟩ := cmdBatchComplete_cases i.now s
      · exact Or.inl (by rw [hsame])
      · exact Or.inr (Or.inr (by rw [heq]; rfl))
    | heartbeat => exact Or.inl rfl
    | checkpoint instruction => exact Or.inl rfl

theorem step_includes (s : RunState) (i : Invocation) : Includes s (step s i).1 := by
  constructor
  · intro t ht
    obtain hsame | ⟨u, -, hadd⟩ | ⟨pre, u, post, hsplit, -, hdone⟩ | ⟨n, batchId, hclaim⟩ := step_backlog s i
    · rw [hsame]
      exact ⟨t, ht, SameTask.refl t⟩
    · rw [hadd]
      exact ⟨t, List.mem_append_left _ ht, SameTask.refl t⟩
    · rw [hdone]
      rw [hsplit] at ht
      obtain hpre | hmid := List.mem_append.mp ht
      · exact ⟨t, List.mem_append_left _ hpre, SameTask.refl t⟩
      · obtain rfl | hpost := List.mem_cons.mp hmid
        · exact ⟨t.complete i.now, by simp, rfl, rfl, rfl, rfl, rfl, rfl⟩
        · exact ⟨t, by simp [hpost], SameTask.refl t⟩
    · rw [hclaim]
      exact ⟨_, List.mem_map_of_mem ht, sameTask_claim i.now batchId _ t⟩
  · intro b hb
    obtain hsame | ⟨c, hadd⟩ | hfinish := step_batches s i
    · rw [hsame]
      exact ⟨b, hb, SameBatch.refl b⟩
    · rw [hadd]
      exact ⟨b, List.mem_append_left _ hb, SameBatch.refl b⟩
    · rw [hfinish]
      exact ⟨_, List.mem_map_of_mem hb, sameBatch_finish s.backlog i.now b⟩

/-! ### The file after an edit -/

/-- On a file that is read as a state an edit is one step of the scheduler. -/
theorem edit_readable {e : Edit} (h : e.access = .served) (s : RunState) :
    (editRunState e (some (.state s))).1 = some (.state (step s e.toInvocation).1) := by
  have hload : loadRunState e (some (.state s)) = some s := by simp only [loadRunState, h]
  simp only [editRunState, hload]
  cases hreply : (step s e.toInvocation).2 with
  | failed f => simp only [Reply.isFailed, if_true, step_failed s e.toInvocation hreply]
  | completion outcome => rfl
  | added id => rfl
  | saved => rfl
  | started batchId mode taskIds => rfl
  | finished summaries => rfl

/-- `batch start` finds no task in a fresh state, and `batch complete` no batch. -/
def Command.exitsFresh : Command → Bool
  | .batchStart _ | .batchComplete => true
  | _ => false

theorem step_fresh (e : Edit) :
    (step e.fresh e.toInvocation).2.isFailed = (e.fault || e.command.exitsFresh) := by
  unfold step
  cases hfault : e.fault with
  | true => rfl
  | false =>
    simp only [Bool.false_eq_true, if_false, Bool.false_or, perform]
    cases hcmd : e.command with
    | add description priority depends group => rfl
    | complete taskId => rfl
    | batchComplete => rfl
    | heartbeat => rfl
    | checkpoint instruction => rfl
    | batchStart modeName =>
      have hnone : ∀ n, selectReadyTasks e.fresh n = [] := fun n => by
        simp [selectReadyTasks, resolveDependencies, Edit.fresh, defaultState]
      have hidle : ¬ e.fresh.batches.any Batch.isActive = true := by simp [Edit.fresh, defaultState]
      simp only [Command.exitsFresh, cmdBatchStart]
      rw [if_neg hidle]
      split
      · rfl
      · rfl
      · rw [if_pos (hnone _)]
        rfl

/-- The command does not complete: reading raises, or the command fails on a fresh state. -/
def Refused (e : Edit) (file : Option Content) : Prop :=
  e.access = .statRaises ∨ (e.access = .served ∧ file = some .rejected) ∨
    e.fault = true ∨ e.command.exitsFresh = true

structure KeepsWork (e : Edit) (file : Option Content) : Prop where
  kept : ∀ s, file = some (.state s) → ∃ s', (editRunState e file).1 = some (.state s') ∧ Includes s s'
  untouched : file ≠ none → ¬ readsState e file → (editRunState e file).2.saved = false

theorem loadRunState_cases (e : Edit) (file : Option Content) :
    readsState e file ∨
      (loadRunState e file = none ∧ (e.access = .statRaises ∨ (e.access = .served ∧ file = some .rejected))) ∨
      (loadRunState e file = some e.fresh ∧
        ¬ (e.access = .statRaises ∨ (e.access = .served ∧ file = some .rejected))) := by
  unfold loadRunState readsState
  cases e.access with
  | statRaises => simp
  | statFails => simp
  | readFails => simp
  | served =>
    match file with
    | none => simp
    | some (.state s) => simp
    | some .undecodable => simp
    | some .malformed => simp
    | some .notObject => simp
    | some .rejected => simp

theorem edit_unreadable {e : Edit} {file : Option Content} (h : ¬ readsState e file) :
    (Refused e file ∧ (editRunState e file).1 = file ∧ (editRunState e file).2.saved = false) ∨
      (¬ Refused e file ∧ (editRunState e file).2.saved = true) := by
  obtain hread | ⟨hload, hraise⟩ | ⟨hload, hraise⟩ := loadRunState_cases e file
  · exact absurd hread h
  · refine Or.inl ⟨?_, by simp only [editRunState, hload], by simp only [editRunState, hload]⟩
    rcases hraise with hstat | hrejected
    · exact Or.inl hstat
    · exact Or.inr (Or.inl hrejected)
  · have hrefused : Refused e file ↔ (step e.fresh e.toInvocation).2.isFailed = true := by
      rw [step_fresh, Bool.or_eq_true]
      unfold Refused
      tauto
    cases hfail : (step e.fresh e.toInvocation).2.isFailed with
    | true =>
      refine Or.inl ⟨hrefused.mpr hfail, ?_, ?_⟩
      · simp only [editRunState, hload, hfail, if_true]
      · simp only [editRunState, hload, hfail, if_true]
    | false =>
      refine Or.inr ⟨?_, ?_⟩
      · rw [hrefused, hfail]
        exact Bool.false_ne_true
      · simp only [editRunState, hload, hfail, Bool.false_eq_true, if_false]

theorem keepsWork_of_readable {e : Edit} {file : Option Content} (h : readsState e file) : KeepsWork e file := by
  refine ⟨?_, fun _ hnot => absurd h hnot⟩
  obtain ⟨s, rfl, haccess⟩ := h
  rintro s' ⟨⟩
  exact ⟨_, edit_readable haccess s, step_includes s e.toInvocation⟩

theorem keepsWork_of_refused {e : Edit} {file : Option Content} (h : Refused e file) : KeepsWork e file := by
  by_cases hread : readsState e file
  · exact keepsWork_of_readable hread
  · obtain ⟨-, hfile, hsaved⟩ | ⟨hnot, -⟩ := edit_unreadable hread
    · refine ⟨?_, fun _ _ => hsaved⟩
      intro s hs
      exact ⟨s, hfile.trans hs, Includes.refl s⟩
    · exact absurd h hnot

theorem edit_keeps_work_iff (e : Edit) (file : Option Content) :
    KeepsWork e file ↔ file = none ∨ readsState e file ∨ Refused e file := by
  constructor
  · intro h
    by_cases hnone : file = none
    · exact Or.inl hnone
    · by_cases hread : readsState e file
      · exact Or.inr (Or.inl hread)
      · have hsaved := h.untouched hnone hread
        obtain ⟨hrefused, -⟩ | ⟨-, htrue⟩ := edit_unreadable hread
        · exact Or.inr (Or.inr hrefused)
        · rw [htrue] at hsaved
          cases hsaved
  · rintro (rfl | hread | hrefused)
    · exact ⟨fun s hs => absurd hs (by simp), fun hne => absurd rfl hne⟩
    · exact keepsWork_of_readable hread
    · exact keepsWork_of_refused hrefused

/-- The intact file of one task is not served to a heartbeat, which then stores a fresh state. -/
theorem unread_state_overwritten : ¬ ∀ e file, KeepsWork e file := by
  intro h
  let stored := (cmdAdd "build".toList 5 [] none [] (defaultState [] [])).1
  let e : Edit :=
    { command := .heartbeat, now := [], loadMode := fun _ => .missing, fault := false, access := .readFails,
      sessionId := [], startedAt := [] }
  obtain ⟨s', hs', hincl⟩ := (h e (some (.state stored))).kept stored rfl
  have hfresh : s' = (cmdHeartbeat [] (defaultState [] [])).1 := by
    cases hs'
    rfl
  obtain ⟨u, hu, -⟩ := hincl.tasks _ List.mem_cons_self
  rw [hfresh] at hu
  cases hu

/-! ### Runs of edits -/

/-- While every edit reads the file or is refused, nothing that was stored is lost. -/
theorem run_keeps_work {s : RunState} {es : List Edit}
    (h : fileMachine.Along (fun file e => readsState e file ∨ Refused e file) (some (.state s)) es) :
    ∃ s', fileMachine.run (some (.state s)) es = some (.state s') ∧ Includes s s' := by
  refine fileMachine.run_invariant_along (I := fun file => ∃ s', file = some (.state s') ∧ Includes s s')
    ?_ ⟨s, rfl, Includes.refl s⟩ h
  rintro file e ⟨r, rfl, hr⟩ hstep
  have hkeeps : KeepsWork e (some (.state r)) := by
    rcases hstep with hread | hrefused
    · exact keepsWork_of_readable hread
    · exact keepsWork_of_refused hrefused
  obtain ⟨s', hs', hincl⟩ := hkeeps.kept r rfl
  exact ⟨s', hs', hr.trans hincl⟩

end AgentWorkflow.Workflows.Scheduler
