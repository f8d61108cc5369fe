import AgentWorkflow.Lib.Index
import AgentWorkflow.VmAgent.DialerCancel

/-!
# The agent's view of its running tasks

Every entry of the two maps belongs to an execution of its task, in every run. That
every execution has its entry holds for a task id of which no offer is accepted
before the entry of the last one is deleted: the deferred deletes go by task id, not
by execution.
-/

namespace AgentWorkflow.VmAgent.Dialer
open AgentWorkflow.Lib

/-- Entered in `d.tasks` and not yet deleted by the goroutine. -/
def Pc.listed : Pc → Bool
  | .accepted | .finished => false
  | _ => true

/-- Entered in `r.active` and not yet deleted by `Execute`. -/
def Pc.tracked : Pc → Bool
  | .running | .waited | .report _ | .completed => true
  | _ => false

/-- `Execute` was called and has not returned. -/
def Pc.executing : Pc → Bool
  | .accepted | .registered | .launched | .returned | .finished => false
  | _ => true

def Pc.unfinished : Pc → Bool
  | .finished => false
  | _ => true

theorem Pc.listed_of_executing {pc : Pc} (h : pc.executing = true) : pc.listed = true := by
  cases pc <;> first | rfl | cases h

theorem Pc.unfinished_of_listed {pc : Pc} (h : pc.listed = true) : pc.unfinished = true := by
  cases pc <;> first | rfl | cases h

theorem Pc.unfinished_of_tracked {pc : Pc} (h : pc.tracked = true) : pc.unfinished = true := by
  cases pc <;> first | rfl | cases h

/-! ### What a step does to the maps -/

/-- A map that an execution enters at `enter` and deletes its task id from at `leave`. -/
def entry (enter leave : Pc) (i : ℕ) (e : Execution) (m : Finmap fun _ : TaskId => ℕ) : Finmap fun _ : TaskId => ℕ :=
  if e.pc = enter then m.insert e.taskId i else if e.pc = leave then m.erase e.taskId else m

def view (e : Execution) : TaskId × Pc := (e.taskId, e.pc)

inductive Change (s : State) : Action → State → Prop where
  | offer (taskId : TaskId) (timeout : Bool) :
      Change s (.offer taskId timeout) { s with executions := s.executions ++ [.accept taskId timeout] }
  | advance (i : ℕ) (o : Outcome) (e : Execution) (he : s.executions[i]? = some e) :
      Change s (.advance i o)
        { s with
          tasks := entry .accepted .returned i e s.tasks
          active := entry .started .completed i e s.active
          executions := s.executions.set i (e.next o) }
  | quiet (a : Action) (s' : State) (htasks : s'.tasks = s.tasks) (hactive : s'.active = s.active)
      (hview : s'.executions.map view = s.executions.map view) : Change s a s'

theorem modify_quiet (s : State) (i : ℕ) (f : Execution → Execution) (hf : ∀ e, view (f e) = view e) :
    (modify i f s).tasks = s.tasks ∧ (modify i f s).active = s.active ∧
      (modify i f s).executions.map view = s.executions.map view := by
  unfold modify
  split
  · exact ⟨rfl, rfl, rfl⟩
  next e he => exact ⟨rfl, rfl, map_set_same he (hf e)⟩

theorem view_kill (killer : Killer) (e : Execution) : view (kill killer e) = view e := by
  unfold kill
  split <;> rfl

theorem step_change (s : State) (a : Action) : Change s a (step s a).1 := by
  cases a with
  | offer taskId timeout => exact .offer taskId timeout
  | advance i o =>
    cases he : s.executions[i]? with
    | none =>
      have hsame : advance i o s = s := by simp only [advance, he]
      rw [step, hsame]
      exact .quiet _ s rfl rfl rfl
    | some e =>
      have hnext : (step s (.advance i o)).1 =
          { s with
            tasks := entry .accepted .returned i e s.tasks
            active := entry .started .completed i e s.active
            executions := s.executions.set i (e.next o) } := by
        simp only [step, advance, he, entry]
        cases e.pc <;> rfl
      rw [hnext]
      exact .advance i o e he
  | cancel taskId =>
    simp only [step, cancel]
    split
    · exact .quiet _ _ rfl rfl rfl
    next i _ =>
      obtain ⟨htasks, hactive, hview⟩ := modify_quiet s i _ (view_kill (.frame s.frames))
      exact .quiet _ _ htasks hactive hview
  | exit i ok =>
    obtain ⟨htasks, hactive, hview⟩ := modify_quiet s i
      (fun e => if e.child = .alive then { e with child := .exited ok } else e) (by intro e; split <;> rfl)
    exact .quiet _ _ htasks hactive hview
  | expire i =>
    obtain ⟨htasks, hactive, hview⟩ := modify_quiet s i
      (fun e => if e.timeout then endContext .deadline e else e) (by intro e; split <;> rfl)
    exact .quiet _ _ htasks hactive hview
  | contextKill i =>
    obtain ⟨htasks, hactive, hview⟩ := modify_quiet s i (fun e => if e.ctx ≠ none then kill .context e else e) (by
      intro e
      split
      · exact view_kill _ e
      · rfl)
    exact .quiet _ _ htasks hactive hview
  | sessionEnd =>
    refine .quiet _ _ rfl rfl ?_
    simp only [step, List.map_map]
    rfl

/-- `p` holds of the statements from the one after `enter` up to `leave`. -/
structure Spans (enter leave : Pc) (p : Pc → Bool) : Prop where
  into : ∀ (e : Execution) o, e.pc = enter → p (e.next o).pc = true
  out : ∀ (e : Execution) o, e.pc = leave → p (e.next o).pc = false
  stays : ∀ (e : Execution) o, e.pc ≠ enter → e.pc ≠ leave → p (e.next o).pc = p e.pc

theorem spans_listed : Spans .accepted .returned Pc.listed := by
  constructor
  · intro e o h
    simp [Execution.next, h, Pc.listed]
  · intro e o h
    simp [Execution.next, h, Pc.listed]
  · intro e o henter hleave
    unfold Execution.next
    cases hpc : e.pc <;> (try dsimp only) <;> (try split) <;> simp_all [Pc.listed]

theorem spans_tracked : Spans .started .completed Pc.tracked := by
  constructor
  · intro e o h
    simp [Execution.next, h, Pc.tracked]
  · intro e o h
    simp [Execution.next, h, Pc.tracked]
  · intro e o henter hleave
    unfold Execution.next
    cases hpc : e.pc <;> (try dsimp only) <;> (try split) <;> simp_all [Pc.tracked]

theorem next_taskId (e : Execution) (o : Outcome) : (e.next o).taskId = e.taskId := by
  unfold Execution.next
  split <;> (try split) <;> rfl

theorem view_map {l l' : List Execution} (hview : l'.map view = l.map view) (p : Pc → Bool) :
    l'.map (fun e => (e.taskId, p e.pc)) = l.map fun e => (e.taskId, p e.pc) := by
  have h := congrArg (List.map (Prod.map id p)) hview
  rw [List.map_map, List.map_map] at h
  exact h

section Entries
variable {enter leave : Pc} {p : Pc → Bool} {m : Finmap fun _ : TaskId => ℕ} {l : List Execution} {i : ℕ}
  {e : Execution} (hspan : Spans enter leave p) (he : l[i]? = some e) (o : Outcome)
include hspan he

theorem points_entry (h : Points Execution.taskId (fun e => p e.pc) m l) :
    Points Execution.taskId (fun e => p e.pc) (entry enter leave i e m) (l.set i (e.next o)) := by
  unfold entry
  split
  next henter => exact h.set_insert he (next_taskId e o) (hspan.into e o henter)
  next henter =>
    split
    · exact h.set_erase he
    next hleave => exact h.congr (map_set_same he (by rw [next_taskId, hspan.stays e o henter hleave]))

theorem covers_entry {taskId : TaskId} (h : Covers Execution.taskId (fun e => p e.pc) m l taskId)
    (honly : e.taskId = taskId → e.pc = enter ∨ e.pc = leave → Only Execution.taskId (fun e => p e.pc) l taskId i) :
    Covers Execution.taskId (fun e => p e.pc) (entry enter leave i e m) (l.set i (e.next o)) taskId := by
  unfold entry
  split
  next henter => exact h.set_insert he (next_taskId e o) fun hid => honly hid (Or.inl henter)
  next henter =>
    split
    next hleave => exact h.set_erase he (hspan.out e o hleave) fun hid => honly hid (Or.inr hleave)
    next hleave => exact h.congr (map_set_same he (by rw [next_taskId, hspan.stays e o henter hleave]))

end Entries

/-! ### Every entry belongs to an execution -/

structure Pointed (s : State) : Prop where
  tasks : Points Execution.taskId (fun e => e.pc.listed) s.tasks s.executions
  active : Points Execution.taskId (fun e => e.pc.tracked) s.active s.executions

theorem step_pointed (s : State) (a : Action) (h : Pointed s) : Pointed (step s a).1 := by
  have hchange := step_change s a
  generalize (step s a).1 = s' at hchange
  cases hchange with
  | offer taskId timeout => exact ⟨h.tasks.append, h.active.append⟩
  | advance i o e he =>
    exact ⟨points_entry spans_listed he o h.tasks, points_entry spans_tracked he o h.active⟩
  | quiet _ _ htasks hactive hview =>
    constructor
    · rw [htasks]
      exact h.tasks.congr (view_map hview Pc.listed)
    · rw [hactive]
      exact h.active.congr (view_map hview Pc.tracked)

theorem run_pointed (as : List Action) : Pointed (machine.run State.init as) :=
  machine.run_invariant step_pointed State.init as ⟨points_empty, points_empty⟩

/-! ### Every execution has its entries -/

structure Held (taskId : TaskId) (s : State) : Prop where
  alone : Unique Execution.taskId (fun e => e.pc.unfinished) s.executions taskId
  tasks : Covers Execution.taskId (fun e => e.pc.listed) s.tasks s.executions taskId
  active : Covers Execution.taskId (fun e => e.pc.tracked) s.active s.executions taskId

/-- No execution of the task is under way. -/
def Free (taskId : TaskId) (s : State) : Prop :=
  ∀ (i : ℕ) (e : Execution), s.executions[i]? = some e → e.taskId = taskId → e.pc = .finished

theorem step_held (taskId : TaskId) (s : State) (a : Action) (h : Held taskId s)
    (hoffer : ∀ timeout, a = .offer taskId timeout → Free taskId s) : Held taskId (step s a).1 := by
  have hchange := step_change s a
  generalize (step s a).1 = s' at hchange
  cases hchange with
  | offer newId timeout =>
    refine ⟨h.alone.append ?_, h.tasks.append rfl, h.active.append rfl⟩
    intro hid i e he heid
    subst hid
    have hfree : e.pc = .finished := hoffer timeout rfl i e he heid
    simp [hfree, Pc.unfinished]
  | advance i o e he =>
    have hdone : (e.next o).pc.unfinished = true → e.pc.unfinished = true := by
      intro hnext
      cases hpc : e.pc <;> simp_all [Execution.next, Pc.unfinished]
    -- where the map changes, the execution is unfinished, so it is the only one of its task
    have honly (hid : e.taskId = taskId) (hpc : e.pc.unfinished = true) := h.alone i e he hid hpc
    refine ⟨h.alone.set he (next_taskId e o) hdone, ?_, ?_⟩
    · apply covers_entry spans_listed he o h.tasks
      intro hid hpc
      apply (honly hid ?_).weaken
      · exact fun e => Pc.unfinished_of_listed
      · obtain hpc | hpc := hpc <;> rw [hpc] <;> rfl
    · apply covers_entry spans_tracked he o h.active
      intro hid hpc
      apply (honly hid ?_).weaken
      · exact fun e => Pc.unfinished_of_tracked
      · obtain hpc | hpc := hpc <;> rw [hpc] <;> rfl
  | quiet _ _ htasks hactive hview =>
    refine ⟨h.alone.congr (view_map hview Pc.unfinished), ?_, ?_⟩
    · rw [htasks]
      exact h.tasks.congr (view_map hview Pc.listed)
    · rw [hactive]
      exact h.active.congr (view_map hview Pc.tracked)

/-- Every offer of the task that is accepted in the run finds the task free. -/
def NoRedelivery (taskId : TaskId) (as : List Action) : Prop :=
  ∀ before timeout after, as = before ++ .offer taskId timeout :: after → Free taskId (machine.run State.init before)

theorem run_held {taskId : TaskId} {as : List Action} (h : NoRedelivery taskId as) :
    Held taskId (machine.run State.init as) := by
  induction as using List.reverseRecOn with
  | nil => exact ⟨unique_nil, covers_nil, covers_nil⟩
  | append_singleton as a ih =>
    have hprefix : NoRedelivery taskId as := by
      intro before timeout after heq
      exact h before timeout (after ++ [a]) (by rw [heq, List.append_assoc]; rfl)
    rw [Machine.run_snoc]
    apply step_held taskId _ a (ih hprefix)
    intro timeout ha
    exact h as timeout [] (by rw [ha])

/-! ### The view -/

/-- The ids reported are those of the executions from their entry in the map, before
the goroutine is launched, to the deletion, after `Execute` has returned. -/
structure Exact (taskId : TaskId) (s : State) : Prop where
  reported : taskId ∈ runningTaskIDs s ↔
    ∃ (i : ℕ) (e : Execution), s.executions[i]? = some e ∧ e.taskId = taskId ∧ e.pc.listed = true
  executing : ∀ (i : ℕ) (e : Execution), s.executions[i]? = some e → e.taskId = taskId → e.pc.executing = true →
    taskId ∈ runningTaskIDs s
  found : ∀ (i : ℕ) (e : Execution), s.executions[i]? = some e → e.taskId = taskId → e.pc.tracked = true →
    s.active.lookup taskId = some i
  once : Unique Execution.taskId (fun e => e.pc.executing) s.executions taskId

/-- What is reported, and what `Runner.Cancel` finds, is of an execution that has
these entries, in every run; a task without overlapping executions has them all. -/
theorem running_tasks_view (as : List Action) :
    Pointed (machine.run State.init as) ∧
      ∀ taskId, NoRedelivery taskId as → Exact taskId (machine.run State.init as) := by
  have hpointed := run_pointed as
  refine ⟨hpointed, ?_⟩
  intro taskId h
  obtain ⟨halone, htasks, hactive⟩ := run_held h
  generalize machine.run State.init as = s at *
  refine ⟨⟨hpointed.tasks.mem_keys, ?_⟩, ?_, hactive, ?_⟩
  · rintro ⟨i, e, he, hid, hpc⟩
    exact htasks.mem_keys he hid hpc
  · intro i e he hid hpc
    exact htasks.mem_keys he hid (Pc.listed_of_executing hpc)
  · intro i e he hid hpc
    have hlisted := Pc.listed_of_executing hpc
    exact (halone i e he hid (Pc.unfinished_of_listed hlisted)).weaken
      fun e hp => Pc.unfinished_of_listed (Pc.listed_of_executing hp)

theorem noRedelivery_once {taskId : TaskId} {timeout : Bool} {as : List Action}
    (h : ∀ t, .offer taskId t ∉ as) : NoRedelivery taskId (.offer taskId timeout :: as) := by
  intro before t after heq
  cases before with
  | nil =>
    intro i e he
    simp [State.init] at he
  | cons a before =>
    have htail : as = before ++ .offer taskId t :: after := (List.cons.inj heq).2
    exact absurd (by simp [htail]) (h t)

theorem running_tasks_view_sample :
    Pointed (machine.run State.init sampleStart) ∧ Exact sampleId (machine.run State.init sampleStart) := by
  obtain ⟨hpointed, hexact⟩ := running_tasks_view sampleStart
  refine ⟨hpointed, hexact sampleId (noRedelivery_once ?_)⟩
  intro t ht
  cases List.eq_of_mem_replicate ht

/-- A redelivered offer: both executions have their process registered. -/
def sampleOverlap : List Action := sampleStart ++ .offer sampleId true :: advances 1 6

/-- An id is reported before `Execute` is called and after it has returned, and a
process that has just been started is not found. With a redelivered offer two
executions of one task overlap, and the end of one hides the other. -/
theorem view_not_of_execute :
    (∀ as, as = [.offer sampleId true, .advance 0 .ok] ∨ as = sampleStart ++ .exit 0 true :: advances 0 5 →
      ¬ (sampleId ∈ runningTaskIDs (machine.run State.init as) ↔
        ∃ e ∈ (machine.run State.init as).executions, e.taskId = sampleId ∧ e.pc.executing = true)) ∧
    (machine.run State.init (.offer sampleId true :: advances 0 5)).executions =
        [⟨sampleId, true, .started, none, .alive, none⟩] ∧
      (machine.run State.init (.offer sampleId true :: advances 0 5)).active.lookup sampleId = none ∧
    (machine.run State.init sampleOverlap).executions = [sampleRunning, sampleRunning] ∧
    (machine.run State.init (sampleOverlap ++ .exit 0 true :: advances 0 6)).executions[1]? = some sampleRunning ∧
      sampleId ∉ runningTaskIDs (machine.run State.init (sampleOverlap ++ .exit 0 true :: advances 0 6)) ∧
      (machine.run State.init (sampleOverlap ++ .exit 0 true :: advances 0 6)).active.lookup sampleId = none := by
  refine ⟨?_, ?_, ?_, ?_, ?_, ?_, ?_⟩
  · rintro as (rfl | rfl)
    · decide +kernel
    · decide +kernel
  all_goals decide +kernel

end AgentWorkflow.VmAgent.Dialer
