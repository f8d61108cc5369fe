import AgentWorkflow.Lib.Machine
import AgentWorkflow.VmAgent.Queue

/-!
# Task offers and cancels (`internal/dialer/dialer.go`, `internal/runner/runner.go`)

`readerLoop` handles `task.offer` and `task.cancel`; each accepted offer becomes a
goroutine that calls `Runner.Execute`. Two maps are keyed by task id: `tasks` of
the dialer holds cancel functions, `active` of the runner holds commands; here
their values are the number of the execution that entered them. An execution is
advanced one statement at a time and any two may be interleaved, also with the
frames of a later connection, so the order within one reader is not assumed.
-/

namespace AgentWorkflow.VmAgent.Dialer
open AgentWorkflow.Lib

abbrev TaskId := Bytes

/-! ### Executions -/

inductive CompleteStatus where
  | success
  | error
  | canceled
deriving DecidableEq, Repr

/-- What ended a task context. `frame n` stands for the `n`-th `task.cancel`
calling the task's cancel function. -/
inductive Cause where
  | deadline
  | sessionEnd
  | returned
  | frame (n : ℕ)
deriving DecidableEq

/-- `context` is the watcher of `exec.CommandContext`. -/
inductive Killer where
  | context
  | frame (n : ℕ)
deriving DecidableEq

inductive Child where
  | absent
  | alive
  | exited (ok : Bool)
  | killed (killer : Killer)
deriving DecidableEq

/-- The statement an execution is at. `accepted` and `registered` are in
`handleTaskOffer`, `resolve` to `returning` in `Execute`, `returned` in the
deferred function of the goroutine. -/
inductive Pc where
  | accepted
  | registered
  | launched
  | resolve
  | start
  | started
  | running
  | waited
  | report (status : CompleteStatus)
  | refuse
  | completed
  | returning
  | returned
  | finished
deriving DecidableEq

/-- `timeout` is `offer.TimeoutSec > 0`, `ctx` is `ctx.Err()`, `reported` the status
of the `task.complete` frame handed to the sink. -/
structure Execution where
  taskId : TaskId
  timeout : Bool
  pc : Pc
  ctx : Option Cause
  child : Child
  reported : Option CompleteStatus
deriving DecidableEq

/-- How a call that can fail ends: the resolver, the pipes, `cmd.Start`. -/
inductive Outcome where
  | ok
  | fails
  | pipeFails
deriving DecidableEq

namespace Execution

def accept (taskId : TaskId) (timeout : Bool) : Execution :=
  { taskId := taskId, timeout := timeout, pc := .accepted, ctx := none, child := .absent, reported := none }

/-- The status `Execute` derives from the exit of the child and `ctx.Err()`. -/
def status (e : Execution) : CompleteStatus :=
  if e.ctx ≠ none then .canceled else if e.child = .exited true then .success else .error

def next (o : Outcome) (e : Execution) : Execution :=
  match e.pc with
  | .accepted => { e with pc := .registered }
  | .registered => { e with pc := .launched }
  | .launched => { e with pc := .resolve }
  | .resolve =>
    match o with
    | .ok => { e with pc := .start }
    | .fails => { e with pc := .refuse }
    | .pipeFails => { e with pc := .returning }
  | .start =>
    -- `cmd.Start` refuses a context that is already done
    if e.ctx ≠ none ∨ o ≠ .ok then { e with pc := .refuse } else { e with pc := .started, child := .alive }
  | .started => { e with pc := .running }
  | .running => if e.child = .alive then e else { e with pc := .waited }
  | .waited => { e with pc := .report e.status }
  | .report status => { e with pc := .completed, reported := some status }
  | .refuse => { e with pc := .returning, reported := some .error }
  | .completed => { e with pc := .returning }
  | .returning => { e with pc := .returned }
  | .returned => { e with pc := .finished, ctx := e.ctx.or (some .returned) }
  | .finished => e

end Execution

/-! ### The agent -/

/-- `frames` counts the `task.cancel` frames. -/
structure State where
  tasks : Finmap fun _ : TaskId => ℕ
  active : Finmap fun _ : TaskId => ℕ
  executions : List Execution
  frames : ℕ

def State.init : State := ⟨∅, ∅, [], 0⟩

def runningTaskIDs (s : State) : Finset TaskId := s.tasks.keys

def modify (i : ℕ) (f : Execution → Execution) (s : State) : State :=
  match s.executions[i]? with
  | none => s
  | some e => { s with executions := s.executions.set i (f e) }

/-- The next statement of execution `i`, with the map entries it makes and deletes. -/
def advance (i : ℕ) (o : Outcome) (s : State) : State :=
  match s.executions[i]? with
  | none => s
  | some e =>
    { s with
      tasks :=
        match e.pc with
        | .accepted => s.tasks.insert e.taskId i
        | .returned => s.tasks.erase e.taskId
        | _ => s.tasks
      active :=
        match e.pc with
        | .started => s.active.insert e.taskId i
        | .completed => s.active.erase e.taskId
        | _ => s.active
      executions := s.executions.set i (e.next o) }

def kill (killer : Killer) (e : Execution) : Execution :=
  if e.child = .alive then { e with child := .killed killer } else e

/-- `Runner.Cancel`, all that `readerLoop` does for a `task.cancel`. -/
def cancel (taskId : TaskId) (s : State) : State :=
  match s.active.lookup taskId with
  | none => { s with frames := s.frames + 1 }
  | some i => { modify i (kill (.frame s.frames)) s with frames := s.frames + 1 }

def endContext (cause : Cause) (e : Execution) : Execution := { e with ctx := e.ctx.or (some cause) }

inductive Action where
  | offer (taskId : TaskId) (timeout : Bool)
  | cancel (taskId : TaskId)
  | advance (i : ℕ) (o : Outcome)
  | exit (i : ℕ) (ok : Bool)
  | expire (i : ℕ)
  | contextKill (i : ℕ)
  | sessionEnd

def step (s : State) : Action → State × Unit
  | .offer taskId timeout => ({ s with executions := s.executions ++ [.accept taskId timeout] }, ())
  | .cancel taskId => (cancel taskId s, ())
  | .advance i o => (advance i o s, ())
  | .exit i ok => (modify i (fun e => if e.child = .alive then { e with child := .exited ok } else e) s, ())
  | .expire i => (modify i (fun e => if e.timeout then endContext .deadline e else e) s, ())
  | .contextKill i => (modify i (fun e => if e.ctx ≠ none then kill .context e else e) s, ())
  | .sessionEnd => ({ s with executions := s.executions.map (endContext .sessionEnd) }, ())

def machine : Machine State Action Unit := ⟨step⟩

/-! ### What a step does to one execution -/

/-- Execution `i` after one step. -/
inductive Evolves (s : State) (i : ℕ) (e : Execution) : Action → Execution → Prop where
  | same (a : Action) (ha : ∀ o, a ≠ .advance i o)
      (hkill : ∀ taskId, a = .cancel taskId → s.active.lookup taskId = some i → e.child ≠ .alive) : Evolves s i e a e
  | advance (o : Outcome) : Evolves s i e (.advance i o) (e.next o)
  | cancel (taskId : TaskId) (active : s.active.lookup taskId = some i) (alive : e.child = .alive) :
      Evolves s i e (.cancel taskId) { e with child := .killed (.frame s.frames) }
  | exit (ok : Bool) (alive : e.child = .alive) : Evolves s i e (.exit i ok) { e with child := .exited ok }
  | expire (timeout : e.timeout = true) : Evolves s i e (.expire i) (endContext .deadline e)
  | contextKill (done : e.ctx ≠ none) (alive : e.child = .alive) :
      Evolves s i e (.contextKill i) { e with child := .killed .context }
  | sessionEnd : Evolves s i e .sessionEnd (endContext .sessionEnd e)

variable {s : State} {i : ℕ} {e : Execution}

theorem modify_get_self (f : Execution → Execution) (he : s.executions[i]? = some e) :
    (modify i f s).executions[i]? = some (f e) := by
  simp only [modify, he]
  exact List.getElem?_set_self (List.getElem?_eq_some_iff.mp he).1

theorem modify_get_ne {j : ℕ} (f : Execution → Execution) (hij : j ≠ i) :
    (modify j f s).executions[i]? = s.executions[i]? := by
  unfold modify
  split
  · rfl
  · exact List.getElem?_set_ne hij

theorem step_evolves (he : s.executions[i]? = some e) (a : Action) :
    ∃ e', (step s a).1.executions[i]? = some e' ∧ Evolves s i e a e' := by
  have hi := (List.getElem?_eq_some_iff.mp he).1
  cases a with
  | offer taskId timeout =>
    refine ⟨e, ?_, .same _ (by simp) (by simp)⟩
    exact (List.getElem?_append_left hi).trans he
  | cancel taskId =>
    simp only [step, cancel]
    cases hact : s.active.lookup taskId with
    | none => exact ⟨e, he, .same _ (by simp) (by simp [hact])⟩
    | some j =>
      by_cases hj : j = i
      · subst hj
        refine ⟨_, modify_get_self _ he, ?_⟩
        by_cases halive : e.child = .alive
        · rw [kill, if_pos halive]
          exact .cancel taskId hact halive
        · rw [kill, if_neg halive]
          exact .same _ (by simp) (fun _ _ _ => halive)
      · refine ⟨e, (modify_get_ne _ hj).trans he, .same _ (by simp) ?_⟩
        intro t ht hlook
        cases ht
        rw [hact] at hlook
        exact absurd (Option.some.inj hlook) hj
  | advance j o =>
    simp only [step, advance]
    by_cases hj : j = i
    · subst hj
      simp only [he]
      exact ⟨_, List.getElem?_set_self hi, .advance o⟩
    · refine ⟨e, ?_, .same _ (by simp [hj]) (by simp)⟩
      split
      · exact he
      · exact (List.getElem?_set_ne hj).trans he
  | exit j ok =>
    by_cases hj : j = i
    · subst hj
      refine ⟨_, modify_get_self _ he, ?_⟩
      by_cases halive : e.child = .alive
      · rw [if_pos halive]
        exact .exit ok halive
      · rw [if_neg halive]
        exact .same _ (by simp) (by simp)
    · exact ⟨e, (modify_get_ne _ hj).trans he, .same _ (by simp) (by simp)⟩
  | expire j =>
    by_cases hj : j = i
    · subst hj
      refine ⟨_, modify_get_self _ he, ?_⟩
      by_cases ht : e.timeout = true
      · rw [if_pos ht]
        exact .expire ht
      · rw [if_neg ht]
        exact .same _ (by simp) (by simp)
    · exact ⟨e, (modify_get_ne _ hj).trans he, .same _ (by simp) (by simp)⟩
  | contextKill j =>
    by_cases hj : j = i
    · subst hj
      refine ⟨_, modify_get_self _ he, ?_⟩
      by_cases hdone : e.ctx ≠ none ∧ e.child = .alive
      · rw [if_pos hdone.1, kill, if_pos hdone.2]
        exact .contextKill hdone.1 hdone.2
      · have hsame : (if e.ctx ≠ none then kill .context e else e) = e := by
          unfold kill
          split_ifs <;> simp_all
        rw [hsame]
        exact .same _ (by simp) (by simp)
    · exact ⟨e, (modify_get_ne _ hj).trans he, .same _ (by simp) (by simp)⟩
  | sessionEnd =>
    refine ⟨endContext .sessionEnd e, ?_, .sessionEnd⟩
    simp [step, he]

end AgentWorkflow.VmAgent.Dialer
