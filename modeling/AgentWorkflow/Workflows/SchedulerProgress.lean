import AgentWorkflow.Workflows.SchedulerInvariant

/-!
# The backlog is worked off

`add` does not check its dependencies, so a task may wait for one that never comes.
Where every `add` names tasks that are there, each task depends on earlier ones only:
the first task that is not done can always be claimed, and rounds of finishing the
claimed tasks, `batch complete` and `batch start` end with every task done.
-/

namespace AgentWorkflow.Workflows.Scheduler
open AgentWorkflow.Lib AgentWorkflow.Lib.Calendar

/-- The dependencies of the command are tasks of the backlog. -/
def Invocation.Known (s : RunState) (i : Invocation) : Prop :=
  match i.command with
  | .add _ _ depends _ => ∀ d ∈ depends, d ∈ s.backlog.map Task.id
  | _ => True

instance (s : RunState) (i : Invocation) : Decidable (i.Known s) := by
  unfold Invocation.Known
  cases i.command <;> infer_instance

def Task.edges (t : Task) : Text × List Text := (t.id, t.depends)

/-- A task depends on tasks before it. -/
def Grounded (s : RunState) : Prop :=
  Everywhere (fun pre e => ∀ d ∈ e.2, d ∈ pre.map Prod.fst) (s.backlog.map Task.edges)

def pendingCount (s : RunState) : ℕ := s.backlog.countP fun t => decide (t.status = .pending)

/-- The tasks in progress are completed, the batch is closed and the next one is started. -/
structure Round (s : RunState) (is : List Invocation) : Prop where
  commands : ∃ modeName, is.map Invocation.command =
    ((s.backlog.filter fun t => decide (t.status = .inProgress)).map fun t => Command.complete t.id) ++
      [.batchComplete, .batchStart modeName]
  healthy : ∀ i ∈ is, i.fault = false
  modes : ∀ i ∈ is, ∀ mode, ∃ n, i.loadMode mode = .parallelAgents n

/-- A machine whose operations are whole lists of commands. -/
def rounds : Machine RunState (List Invocation) (List Reply) := ⟨fun s is => (machine.run s is, machine.trace s is)⟩

/-! ### Dependencies -/

variable {s : RunState}

theorem edges_complete (t : Task) (now : Text) : (t.complete now).edges = t.edges := rfl

theorem edges_claim (timestamp batchId : Text) (selected : List Task) :
    Task.edges ∘ claim timestamp batchId selected = Task.edges := by
  funext t
  simp [Task.edges]

theorem step_edges (s : RunState) (i : Invocation) :
    (step s i).1.backlog.map Task.edges = s.backlog.map Task.edges ∨
      ∃ description priority depends group t, i.command = .add description priority depends group ∧
        Task.edges t = (nextTaskId s.backlog, depends) ∧ (step s i).1.backlog = s.backlog ++ [t] := by
  unfold step
  split
  · exact Or.inl rfl
  · unfold perform
    cases hcmd : i.command with
    | add description priority depends group => exact Or.inr ⟨description, priority, depends, group, _, rfl, rfl, rfl⟩
    | complete taskId =>
      left
      obtain hsame | ⟨pre, t, post, hsplit, -, heq⟩ := cmdComplete_cases taskId i.now s
      · rw [hsame]
      · rw [heq, hsplit]
        simp [edges_complete]
    | batchStart modeName =>
      left
      obtain ⟨hsame, -⟩ | ⟨-, mode, n, heq⟩ := cmdBatchStart_cases modeName i.loadMode i.now s
      · rw [hsame]
      · simp only [heq, startBatch, List.map_map, edges_claim]
    | batchComplete =>
      left
      obtain ⟨hsame, -⟩ | ⟨-, heq, -⟩ := cmdBatchComplete_cases i.now s
      · rw [hsame]
      · rw [heq]
        rfl
    | heartbeat => exact Or.inl rfl
    | checkpoint instruction => exact Or.inl rfl

theorem step_sameIds {i : Invocation} (h : ∀ description priority depends group, i.command ≠ .add description priority depends group) :
    (step s i).1.backlog.map Task.id = s.backlog.map Task.id := by
  obtain hsame | ⟨description, priority, depends, group, t, hadd, -⟩ := step_edges s i
  · have hids := congrArg (List.map Prod.fst) hsame
    rw [List.map_map, List.map_map] at hids
    exact hids
  · exact absurd hadd (h description priority depends group)

theorem grounded_default (sessionId startedAt : Text) : Grounded (defaultState sessionId startedAt) := everywhere_nil

theorem step_grounded (i : Invocation) (h : Grounded s) (hknown : i.Known s) : Grounded (step s i).1 := by
  unfold Grounded
  obtain hsame | ⟨description, priority, depends, group, t, hcmd, hedges, hadd⟩ := step_edges s i
  · rw [hsame]
    exact h
  · rw [hadd, List.map_append, List.map_singleton, hedges]
    refine Everywhere.snoc h ?_
    intro d hd
    simp only [Invocation.Known, hcmd] at hknown
    rw [List.map_map]
    exact hknown d hd

/-- What a state of such a run satisfies. -/
structure Sound (s : RunState) : Prop where
  consistent : Consistent s
  grounded : Grounded s

theorem step_sound (s : RunState) (i : Invocation) (h : Sound s) (hknown : i.Known s) : Sound (step s i).1 :=
  ⟨step_consistent s i h.consistent, step_grounded i h.grounded hknown⟩

theorem run_sound (sessionId startedAt : Text) {is : List Invocation}
    (hknown : machine.Along (fun s i => i.Known s) (defaultState sessionId startedAt) is) :
    Sound (machine.run (defaultState sessionId startedAt) is) :=
  machine.run_invariant_along step_sound ⟨consistent_default _ _, grounded_default _ _⟩ hknown

/-- The first task that is not done waits for nothing. -/
theorem Sound.exists_ready (h : Sound s) (hidle : ∀ t ∈ s.backlog, t.status ≠ .inProgress)
    (hpending : 0 < pendingCount s) (n : ℤ) : selectReadyTasks s n ≠ [] := by
  obtain ⟨u, hu, hst⟩ := List.countP_pos_iff.mp hpending
  have hst := of_decide_eq_true hst
  obtain ⟨t, hfind⟩ : ∃ t, s.backlog.find? (fun t => decide (t.status ≠ .done)) = some t := by
    apply Option.isSome_iff_exists.mp
    rw [List.find?_isSome]
    exact ⟨u, hu, by simp [hst]⟩
  obtain ⟨hnot, pre, post, hsplit, hdone⟩ := List.find?_eq_some_iff_append.mp hfind
  have hmem : t ∈ s.backlog := by rw [hsplit]; simp
  have hpend : t.status = .pending := by
    rcases h.consistent.statuses t hmem with hp | hp | hp
    · exact hp
    · exact absurd hp (hidle t hmem)
    · exact absurd hp (of_decide_eq_true hnot)
  have hdeps : ∀ d ∈ t.depends, d ∈ (s.backlog.filter fun t => t.status.resolves).map Task.id := by
    intro d hd
    have hearlier : d ∈ (pre.map Task.edges).map Prod.fst :=
      h.grounded _ t.edges (post.map Task.edges) (by rw [hsplit]; simp) d hd
    rw [List.map_map] at hearlier
    obtain ⟨v, hv, rfl⟩ := List.mem_map.mp hearlier
    have hvdone : v.status = .done := by simpa using hdone v hv
    refine List.mem_map.mpr ⟨v, List.mem_filter.mpr ⟨?_, by rw [hvdone]; rfl⟩, rfl⟩
    rw [hsplit]
    exact List.mem_append_left _ hv
  have hready : t ∈ resolveDependencies (s.backlog.filter fun t => decide (t.status = .pending)) s.backlog := by
    refine List.mem_filter.mpr ⟨List.mem_filter.mpr ⟨hmem, decide_eq_true hpend⟩, ?_⟩
    exact List.all_eq_true.mpr fun d hd => decide_eq_true (hdeps d hd)
  intro hnil
  have hlimit : 0 < (max 1 n).toNat := by omega
  have hsorted : 0 < ((resolveDependencies (s.backlog.filter fun t => decide (t.status = .pending)) s.backlog).insertionSort
      Task.sortsBefore).length := by
    rw [List.length_insertionSort]
    exact List.length_pos_of_mem hready
  have htake := congrArg List.length hnil
  simp only [selectReadyTasks, List.length_take, List.length_nil] at htake
  omega

/-! ### A round -/

/-- Completing tasks by id leaves the batches, and changes no task but to done. -/
structure Completed (s : RunState) (ids : List Text) (s' : RunState) : Prop where
  sound : Sound s'
  batches : s'.batches = s.batches
  sameIds : s'.backlog.map Task.id = s.backlog.map Task.id
  tasks : ∀ t ∈ s'.backlog, (t ∈ s.backlog ∧ t.id ∉ ids) ∨ t.status = .done
  pending : pendingCount s' ≤ pendingCount s

theorem step_complete {i : Invocation} {taskId : Text} (hcmd : i.command = .complete taskId) (hfault : i.fault = false) :
    (step s i).1 = (cmdComplete taskId i.now s).1 := by
  simp [step, hfault, perform, hcmd]

theorem completeIn_other (taskId now : Text) (backlog : List Task) (hids : (backlog.map Task.id).Nodup) :
    ∀ t ∈ (completeIn taskId now backlog).2, (t ∈ backlog ∧ t.id ≠ taskId) ∨ t.status = .done := by
  induction backlog with
  | nil => simp [completeIn]
  | cons u us ih =>
    rw [List.map_cons, List.nodup_cons] at hids
    intro t ht
    by_cases hid : u.id = taskId
    · have hrest : ∀ v ∈ us, v.id ≠ taskId := by
        intro v hv heq
        exact hids.1 (hid ▸ heq ▸ List.mem_map_of_mem hv)
      by_cases hst : u.status = .done
      · simp only [completeIn, hid, ne_eq, not_true, if_false, hst, if_true, List.mem_cons] at ht
        rcases ht with rfl | ht
        · exact Or.inr hst
        · exact Or.inl ⟨List.mem_cons_of_mem _ ht, hrest t ht⟩
      · simp only [completeIn, hid, ne_eq, not_true, if_false, hst, List.mem_cons] at ht
        rcases ht with rfl | ht
        · exact Or.inr rfl
        · exact Or.inl ⟨List.mem_cons_of_mem _ ht, hrest t ht⟩
    · simp only [completeIn, hid, ne_eq, not_false_eq_true, if_true, List.mem_cons] at ht
      rcases ht with rfl | ht
      · exact Or.inl ⟨List.mem_cons_self, hid⟩
      · rcases ih hids.2 t ht with h | h
        · exact Or.inl ⟨List.mem_cons_of_mem _ h.1, h.2⟩
        · exact Or.inr h

theorem Sound.complete (h : Sound s) {i : Invocation} {taskId : Text} (hcmd : i.command = .complete taskId)
    (hfault : i.fault = false) : Completed s [taskId] (step s i).1 := by
  have hsound : Sound (step s i).1 := step_sound s i h (by simp [Invocation.Known, hcmd])
  have hother := completeIn_other taskId i.now s.backlog h.consistent.ids
  refine ⟨hsound, ?_, ?_, ?_, ?_⟩
  · rw [step_complete hcmd hfault]
    rfl
  · exact step_sameIds (by simp [hcmd])
  · rw [step_complete hcmd hfault]
    intro t ht
    rcases hother t ht with ⟨hmem, hne⟩ | hst
    · exact Or.inl ⟨hmem, by simpa using hne⟩
    · exact Or.inr hst
  · rw [step_complete hcmd hfault]
    obtain hsame | ⟨pre, t, post, hsplit, -, heq⟩ := cmdComplete_cases taskId i.now s
    · rw [hsame]
    · rw [heq]
      simp only [pendingCount, hsplit, List.countP_append, List.countP_cons, Task.complete]
      simp

theorem Sound.completeAll (h : Sound s) {is : List Invocation} {ids : List Text}
    (hcmd : is.map Invocation.command = ids.map Command.complete) (hfault : ∀ i ∈ is, i.fault = false) :
    Completed s ids (machine.run s is) := by
  induction ids generalizing s is with
  | nil =>
    rw [List.map_eq_nil_iff.mp hcmd]
    exact ⟨h, rfl, rfl, fun t ht => Or.inl ⟨ht, by simp⟩, le_refl _⟩
  | cons taskId ids ih =>
    obtain ⟨i, is, rfl, hi, his⟩ := List.map_eq_cons_iff.mp hcmd
    have hone := h.complete hi (hfault i (by simp))
    have hrest := ih hone.sound his fun j hj => hfault j (List.mem_cons_of_mem _ hj)
    refine ⟨hrest.sound, hrest.batches.trans hone.batches, hrest.sameIds.trans hone.sameIds, ?_, hrest.pending.trans hone.pending⟩
    intro t ht
    rcases hrest.tasks t ht with ⟨hmem, hnot⟩ | hst
    · rcases hone.tasks t hmem with ⟨hs, hne⟩ | hst
      · exact Or.inl ⟨hs, by simpa [hnot] using hne⟩
      · exact Or.inr hst
    · exact Or.inr hst

/-- With nothing in progress, `batch complete` leaves no batch active. -/
theorem Consistent.closes (h : Consistent s) (hidle : ∀ t ∈ s.backlog, t.status ≠ .inProgress) (now : Text) :
    (cmdBatchComplete now s).1.backlog = s.backlog ∧ ∀ b ∈ (cmdBatchComplete now s).1.batches, b.status ≠ .active := by
  have hres : unresolvedIds s = [] := by
    refine List.flatMap_eq_nil_iff.mpr fun b hb => List.filter_eq_nil_iff.mpr fun i hi => ?_
    obtain ⟨t, ht, rfl, hst⟩ := h.listed b (List.mem_filter.mp hb).1 i hi
    have hdone : t.status = .done := by
      rcases h.statuses t ht with hp | hp | hp
      · exact absurd hp hst
      · exact absurd hp (hidle t ht)
      · exact hp
    simp [isResolved, h.statusOf_eq ht, hdone]
  unfold cmdBatchComplete
  by_cases hnone : s.batches.filter Batch.isActive = []
  · rw [if_pos hnone]
    refine ⟨rfl, fun b hb hact => ?_⟩
    exact List.filter_eq_nil_iff.mp hnone b hb (decide_eq_true hact)
  · rw [if_neg hnone, if_neg (not_not.mpr hres)]
    refine ⟨rfl, fun b hb => ?_⟩
    obtain ⟨c, -, rfl⟩ := List.mem_map.mp hb
    exact finishBatch_not_active _ _ c

theorem any_isActive (h : ∀ b ∈ s.batches, b.status ≠ .active) : s.batches.any Batch.isActive = false := by
  refine List.any_eq_false.mpr fun b hb => ?_
  simpa [Batch.isActive] using h b hb

/-- With no batch active, `batch start` starts one if any task is pending. -/
theorem Sound.starts (h : Sound s) (hbatches : ∀ b ∈ s.batches, b.status ≠ .active) {modeName : Option Text}
    {loadMode : Text → ModeFile} {n : ℤ} (hmode : loadMode (effectiveMode modeName s.session) = .parallelAgents n)
    (hpending : 0 < pendingCount s) (now : Text) :
    selectReadyTasks s n ≠ [] ∧ cmdBatchStart modeName loadMode now s =
      (startBatch (effectiveMode modeName s.session) now (selectReadyTasks s n) s,
        .started (nextBatchId s.batches) (effectiveMode modeName s.session) ((selectReadyTasks s n).map Task.id)) := by
  have hidle : ∀ t ∈ s.backlog, t.status ≠ .inProgress := by
    intro t ht hst
    obtain ⟨b, hb, hact, -⟩ := h.consistent.claimed t ht hst
    exact hbatches b hb hact
  have hready := h.exists_ready hidle hpending n
  refine ⟨hready, ?_⟩
  unfold cmdBatchStart
  rw [any_isActive hbatches]
  simp only [hmode, if_neg hready, Bool.false_eq_true, if_false]

theorem pendingCount_start {mode now : Text} {n : ℤ} (hready : selectReadyTasks s n ≠ []) :
    pendingCount (startBatch mode now (selectReadyTasks s n) s) < pendingCount s := by
  obtain ⟨t, ht⟩ := List.exists_mem_of_ne_nil _ hready
  obtain ⟨hmem, hpend, -⟩ := mem_selectReadyTasks ht
  obtain ⟨pre, post, hsplit⟩ := List.append_of_mem hmem
  have hle : ∀ l : List Task, l.countP ((fun t => decide (t.status = .pending)) ∘
      claim now (nextBatchId s.batches) (selectReadyTasks s n)) ≤ l.countP fun t => decide (t.status = .pending) := by
    intro l
    refine List.countP_mono_left fun u _ hu => ?_
    simp only [Function.comp_apply, decide_eq_true_eq] at hu ⊢
    unfold claim at hu
    split at hu
    · cases hu
    · exact hu
  have hpre := hle pre
  have hpost := hle post
  have hclaimed : (claim now (nextBatchId s.batches) (selectReadyTasks s n) t).status ≠ .pending := by
    simp [claim_of_mem ht]
  simp only [pendingCount, startBatch, List.countP_map]
  rw [hsplit]
  simp only [List.countP_append, List.countP_cons, Function.comp_apply, decide_eq_false hclaimed, decide_eq_true hpend]
  simp only [Bool.false_eq_true, if_false, if_true]
  omega

/-- A round claims a pending task, or ends with every task done. -/
theorem Sound.round (h : Sound s) {is : List Invocation} (hr : Round s is) :
    Sound (machine.run s is) ∧ (machine.run s is).backlog.map Task.id = s.backlog.map Task.id ∧
      (pendingCount s = 0 → ∀ t ∈ (machine.run s is).backlog, t.status = .done) ∧
      (0 < pendingCount s → pendingCount (machine.run s is) < pendingCount s) := by
  obtain ⟨modeName, hcommands⟩ := hr.commands
  obtain ⟨work, tail, rfl, hwork, htail⟩ := List.map_eq_append_iff.mp hcommands
  obtain ⟨close, tail, rfl, hclose, htail⟩ := List.map_eq_cons_iff.mp htail
  obtain ⟨start, tail, rfl, hstart, htail⟩ := List.map_eq_cons_iff.mp htail
  rw [List.map_eq_nil_iff.mp htail, Machine.run_append, Machine.run_cons, Machine.run_cons, Machine.run_nil]
  have hids : work.map Invocation.command =
      ((s.backlog.filter fun t => decide (t.status = .inProgress)).map Task.id).map Command.complete := by
    rw [hwork, List.map_map]
    rfl
  have hdone := h.completeAll hids fun i hi => hr.healthy i (by simp [hi])
  generalize machine.run s work = s₁ at hdone ⊢
  have hidle : ∀ t ∈ s₁.backlog, t.status ≠ .inProgress := by
    intro t ht hst
    rcases hdone.tasks t ht with ⟨hmem, hnot⟩ | hd
    · exact hnot (List.mem_map_of_mem (List.mem_filter.mpr ⟨hmem, decide_eq_true hst⟩))
    · rw [hd] at hst
      cases hst
  have hclosed : (machine.step s₁ close).1 = (cmdBatchComplete close.now s₁).1 := by
    simp [machine, step, hr.healthy close (by simp), perform, hclose]
  obtain ⟨hbacklog, hbatches⟩ := hdone.sound.consistent.closes hidle close.now
  rw [← hclosed] at hbacklog hbatches
  have hsound : Sound (machine.step s₁ close).1 :=
    step_sound s₁ close hdone.sound (by simp [Invocation.Known, hclose])
  have hcount : pendingCount (machine.step s₁ close).1 = pendingCount s₁ := by rw [pendingCount, hbacklog]; rfl
  generalize (machine.step s₁ close).1 = s₂ at hsound hbacklog hbatches hcount ⊢
  have hlast : Sound (machine.step s₂ start).1 := step_sound s₂ start hsound (by simp [Invocation.Known, hstart])
  obtain ⟨n, hmode⟩ := hr.modes start (by simp) (effectiveMode modeName s₂.session)
  have hstarted : (machine.step s₂ start).1 = (cmdBatchStart modeName start.loadMode start.now s₂).1 := by
    simp [machine, step, hr.healthy start (by simp), perform, hstart]
  have hids : (machine.step s₂ start).1.backlog.map Task.id = s.backlog.map Task.id := by
    rw [← hdone.sameIds, ← hbacklog]
    exact step_sameIds (by simp [hstart])
  refine ⟨hlast, hids, ?_, ?_⟩
  · intro hzero
    have hnone : pendingCount s₂ = 0 := by
      have hle := hdone.pending
      omega
    have hall : ∀ t ∈ s₂.backlog, t.status = .done := by
      intro t ht
      rcases hsound.consistent.statuses t ht with hp | hp | hp
      · exact absurd (decide_eq_true hp) (List.countP_eq_zero.mp hnone t ht)
      · rw [hbacklog] at ht
        exact absurd hp (hidle t ht)
      · exact hp
    rw [hstarted]
    obtain ⟨hsame, -⟩ | ⟨-, mode, m, heq⟩ := cmdBatchStart_cases modeName start.loadMode start.now s₂
    · rw [hsame]
      exact hall
    · rw [heq]
      intro t ht
      obtain ⟨u, hu, rfl⟩ := List.mem_map.mp ht
      exact (claim_done_iff (fun v hv => (mem_selectReadyTasks hv).2.1) u).mpr (hall u hu)
  · intro hpos
    rw [hstarted]
    by_cases hsome : 0 < pendingCount s₂
    · obtain ⟨hready, heq⟩ := hsound.starts hbatches hmode hsome start.now
      rw [heq]
      have hlt : pendingCount (startBatch (effectiveMode modeName s₂.session) start.now (selectReadyTasks s₂ n) s₂) <
          pendingCount s₂ := pendingCount_start hready
      have hle := hdone.pending
      simp only
      omega
    · obtain ⟨hsame, -⟩ | ⟨-, mode, m, heq⟩ := cmdBatchStart_cases modeName start.loadMode start.now s₂
      · rw [hsame]
        omega
      · rw [heq]
        have hzero : pendingCount s₂ = 0 := by omega
        have hnone : selectReadyTasks s₂ m = [] := by
          refine List.eq_nil_iff_forall_not_mem.mpr fun t ht => ?_
          obtain ⟨hmem, hpend, -⟩ := mem_selectReadyTasks ht
          exact List.countP_eq_zero.mp hzero t hmem (decide_eq_true hpend)
        simp only [hnone, startBatch, pendingCount]
        have hsame : s₂.backlog.map (claim start.now (nextBatchId s₂.batches) []) = s₂.backlog := by
          conv_rhs => rw [← List.map_id s₂.backlog]
          exact List.map_congr_left fun t _ => by simp [claim]
        rw [hsame]
        exact lt_of_eq_of_lt hzero hpos

/-! ### The whole backlog -/

theorem Sound.drained (h : Sound s) {work : List (List Invocation)} (hwork : rounds.Along Round s work)
    (hlen : pendingCount s < work.length) :
    (rounds.run s work).backlog.map Task.id = s.backlog.map Task.id ∧
      ∀ t ∈ (rounds.run s work).backlog, t.status = .done := by
  induction work generalizing s with
  | nil => exact absurd hlen (Nat.not_lt_zero _)
  | cons is work ih =>
    obtain ⟨hsound, hids, hend, hless⟩ := h.round hwork.1
    rw [Machine.run_cons]
    cases work with
    | nil =>
      have hzero : pendingCount s = 0 := by simpa using hlen
      exact ⟨hids, hend hzero⟩
    | cons js work =>
      have hnext : pendingCount (machine.run s is) < (js :: work).length := by
        rcases Nat.eq_zero_or_pos (pendingCount s) with hzero | hpos
        · have hnone : pendingCount (machine.run s is) = 0 := by
            refine List.countP_eq_zero.mpr fun t ht => ?_
            simp [hend hzero t ht]
          rw [hnone]
          exact Nat.zero_lt_succ _
        · have hlt := hless hpos
          simp only [List.length_cons] at hlen ⊢
          omega
      obtain ⟨hids', hdone⟩ := ih hsound hwork.2 hnext
      exact ⟨hids'.trans hids, hdone⟩

/-- Where every `add` names tasks that are there, `batch start` is refused for want of a ready
task only if no task is pending, and more rounds than there are pending tasks do every task. -/
theorem backlog_worked_off (sessionId startedAt : Text) (is : List Invocation)
    (hknown : machine.Along (fun s i => i.Known s) (defaultState sessionId startedAt) is) :
    let s := machine.run (defaultState sessionId startedAt) is
    (∀ i, (step s i).2 = .failed .nothingReady → pendingCount s = 0) ∧
      ∀ work, rounds.Along Round s work → pendingCount s < work.length →
        (rounds.run s work).backlog.map Task.id = s.backlog.map Task.id ∧
          ∀ t ∈ (rounds.run s work).backlog, t.status = .done := by
  intro s
  have h : Sound s := run_sound sessionId startedAt hknown
  refine ⟨?_, fun work hwork hlen => h.drained hwork hlen⟩
  intro i hfailed
  by_contra hsome
  unfold step at hfailed
  split at hfailed
  · cases hfailed
  · unfold perform at hfailed
    split at hfailed
    · cases hfailed
    · cases hfailed
    next modeName _ =>
      unfold cmdBatchStart at hfailed
      split at hfailed
      · cases hfailed
      next hidle =>
        simp only at hfailed
        split at hfailed
        · cases hfailed
        · cases hfailed
        next n hmode =>
          have hready := (h.starts (no_active_of_any hidle) hmode (Nat.pos_of_ne_zero hsome) i.now).1
          rw [if_neg hready] at hfailed
          cases hfailed
    next _ =>
      unfold cmdBatchComplete at hfailed
      split at hfailed
      · cases hfailed
      · split at hfailed <;> cases hfailed
    · cases hfailed
    · cases hfailed

def sampleCall (command : Command) : Invocation :=
  { command := command, now := "2026-01-01T00:00:00".toList, loadMode := fun _ => .parallelAgents 1, fault := false }

/-- Two tasks, the second of which waits for the first. -/
def sampleChain : List Invocation :=
  [sampleCall (.add "first".toList 2 [] none), sampleCall (.add "second".toList 0 ["T-001".toList] none)]

theorem backlog_worked_off_chain :
    (machine.run (defaultState [] []) sampleChain).backlog.length = 2 ∧
      ∀ i, (step (machine.run (defaultState [] []) sampleChain) i).2 = .failed .nothingReady →
        pendingCount (machine.run (defaultState [] []) sampleChain) = 0 :=
  ⟨by decide +kernel, (backlog_worked_off [] [] sampleChain (by decide +kernel)).1⟩

end AgentWorkflow.Workflows.Scheduler
