import AgentWorkflow.Workflows.Scheduler

/-!
# The invariant of the run state

`Consistent` relates the backlog, the batches and the counter. Each command keeps
it; `batch start` uses that nothing is in progress while no batch is active, and
`batch complete` that a resolved task is not in progress.
-/

namespace AgentWorkflow.Workflows.Scheduler
open AgentWorkflow.Lib AgentWorkflow.Lib.Calendar

structure Consistent (s : RunState) : Prop where
  ids : (s.backlog.map Task.id).Nodup
  batchIds : (s.batches.map Batch.id).Nodup
  oneActive : (s.batches.filter Batch.isActive).length ≤ 1
  statuses : ∀ t ∈ s.backlog, t.status = .pending ∨ t.status = .inProgress ∨ t.status = .done
  listed : ∀ b ∈ s.batches, ∀ i ∈ b.taskIds, ∃ t ∈ s.backlog, t.id = i ∧ t.status ≠ .pending
  once : ∀ b ∈ s.batches, ∀ b' ∈ s.batches, ∀ i, i ∈ b.taskIds → i ∈ b'.taskIds → b = b'
  claimed : ∀ t ∈ s.backlog, t.status = .inProgress →
    ∃ b ∈ s.batches, b.status = .active ∧ t.id ∈ b.taskIds ∧ t.batchId = some b.id
  counted : s.progress.tasksCompletedThisSession = s.backlog.countP fun t => decide (t.status = .done)

theorem consistent_default (sessionId startedAt : Text) : Consistent (defaultState sessionId startedAt) := by
  constructor
  all_goals simp [defaultState]

variable {s : RunState}

theorem Consistent.same_task (h : Consistent s) {t u : Task} (ht : t ∈ s.backlog) (hu : u ∈ s.backlog)
    (hid : t.id = u.id) : t = u := by
  exact List.inj_on_of_nodup_map h.ids ht hu hid

/-! ### `add` -/

theorem nextTaskId_not_mem (backlog : List Task) : nextTaskId backlog ∉ backlog.map Task.id :=
  Numbered.next_not_mem _ (Numbered.matchNumber_name taskPrefix) _

theorem nextBatchId_not_mem (batches : List Batch) : nextBatchId batches ∉ batches.map Batch.id :=
  Numbered.next_not_mem _ (Numbered.fullmatchNumber_name batchPrefix) _

theorem cmdAdd_consistent (h : Consistent s) (description : Text) (priority : ℕ) (depends : List Text)
    (group : Option Text) (now : Text) :
    Consistent (cmdAdd description priority depends group now s).1 := by
  refine ⟨?_, h.batchIds, h.oneActive, ?_, ?_, h.once, ?_, ?_⟩
  · simp only [cmdAdd, List.map_append, List.map_singleton]
    refine List.nodup_append.mpr ⟨h.ids, List.nodup_singleton _, ?_⟩
    intro i hi j hj heq
    rw [heq, List.mem_singleton.mp hj] at hi
    exact nextTaskId_not_mem s.backlog hi
  · intro t ht
    cases List.mem_append.mp ht with
    | inl hold => exact h.statuses t hold
    | inr hnew =>
      rw [List.mem_singleton.mp hnew]
      exact Or.inl rfl
  · intro b hb i hi
    obtain ⟨t, ht, hid, hst⟩ := h.listed b hb i hi
    exact ⟨t, List.mem_append_left _ ht, hid, hst⟩
  · intro t ht hst
    cases List.mem_append.mp ht with
    | inl hold => exact h.claimed t hold hst
    | inr hnew =>
      rw [List.mem_singleton.mp hnew] at hst
      cases hst
  · simp only [cmdAdd, List.countP_append, List.countP_singleton]
    simpa using h.counted

/-! ### `complete` -/

def Task.complete (now : Text) (t : Task) : Task := { t with status := .done, completedAt := some now }

/-- The backlog is as before, or one task that was not done is completed. -/
theorem completeIn_cases (taskId now : Text) (backlog : List Task) :
    ((completeIn taskId now backlog).1 ≠ .completed ∧ (completeIn taskId now backlog).2 = backlog) ∨
      ∃ pre t post, backlog = pre ++ t :: post ∧ t.status ≠ .done ∧
        completeIn taskId now backlog = (.completed, pre ++ t.complete now :: post) := by
  induction backlog with
  | nil => exact Or.inl ⟨by simp [completeIn], rfl⟩
  | cons t ts ih =>
    by_cases hid : t.id = taskId
    · by_cases hst : t.status = .done
      · exact Or.inl ⟨by simp [completeIn, hid, hst], by simp [completeIn, hid, hst]⟩
      · exact Or.inr ⟨[], t, ts, rfl, hst, by simp [completeIn, hid, hst, Task.complete]⟩
    · cases ih with
      | inl hsame => exact Or.inl ⟨by simp [completeIn, hid, hsame.1], by simp [completeIn, hid, hsame.2]⟩
      | inr hdone =>
        obtain ⟨pre, u, post, hsplit, hst, heq⟩ := hdone
        refine Or.inr ⟨t :: pre, u, post, by simp [hsplit], hst, ?_⟩
        simp [completeIn, hid, heq]

theorem cmdComplete_cases (taskId now : Text) (s : RunState) :
    (cmdComplete taskId now s).1 = s ∨
      ∃ pre t post, s.backlog = pre ++ t :: post ∧ t.status ≠ .done ∧
        (cmdComplete taskId now s).1 = { s with
          backlog := pre ++ t.complete now :: post
          progress := { s.progress with
            tasksCompletedThisSession := s.progress.tasksCompletedThisSession + 1 } } := by
  cases completeIn_cases taskId now s.backlog with
  | inl hsame =>
    left
    simp only [cmdComplete]
    rw [if_neg hsame.1, hsame.2]
  | inr hdone =>
    obtain ⟨pre, t, post, hsplit, hst, heq⟩ := hdone
    exact Or.inr ⟨pre, t, post, hsplit, hst, by simp only [cmdComplete, heq, if_true]⟩

theorem cmdComplete_consistent (h : Consistent s) (taskId now : Text) :
    Consistent (cmdComplete taskId now s).1 := by
  cases cmdComplete_cases taskId now s with
  | inl hsame => rw [hsame]; exact h
  | inr hdone =>
    obtain ⟨pre, t, post, hsplit, hst, heq⟩ := hdone
    rw [heq]
    have hmem : ∀ u, u ∈ s.backlog ↔ u = t ∨ u ∈ pre ∨ u ∈ post := by
      intro u
      rw [hsplit]
      simp only [List.mem_append, List.mem_cons]
      tauto
    refine ⟨?_, h.batchIds, h.oneActive, ?_, ?_, h.once, ?_, ?_⟩
    · have hids := h.ids
      rw [hsplit] at hids
      simpa [Task.complete] using hids
    · intro u hu
      simp only [List.mem_append, List.mem_cons] at hu
      obtain hu | rfl | hu := hu
      · exact h.statuses u ((hmem u).mpr (Or.inr (Or.inl hu)))
      · exact Or.inr (Or.inr rfl)
      · exact h.statuses u ((hmem u).mpr (Or.inr (Or.inr hu)))
    · intro b hb i hi
      obtain ⟨u, hu, hid, hpend⟩ := h.listed b hb i hi
      obtain rfl | hpre | hpost := (hmem u).mp hu
      · exact ⟨u.complete now, by simp, hid, by simp [Task.complete]⟩
      · exact ⟨u, by simp [hpre], hid, hpend⟩
      · exact ⟨u, by simp [hpost], hid, hpend⟩
    · intro u hu hrun
      simp only [List.mem_append, List.mem_cons] at hu
      obtain hu | rfl | hu := hu
      · exact h.claimed u ((hmem u).mpr (Or.inr (Or.inl hu))) hrun
      · cases hrun
      · exact h.claimed u ((hmem u).mpr (Or.inr (Or.inr hu))) hrun
    · have hcount := h.counted
      rw [hsplit] at hcount
      simp only [List.countP_append, List.countP_cons, hst, decide_false, Bool.false_eq_true, if_false] at hcount
      simp only [List.countP_append, List.countP_cons, Task.complete, decide_true, if_true]
      omega

/-! ### `batch start` -/

theorem mem_selectReadyTasks {n : ℤ} {t : Task} (ht : t ∈ selectReadyTasks s n) :
    t ∈ s.backlog ∧ t.status = .pending ∧
      ∀ d ∈ t.depends, ∃ u ∈ s.backlog, u.id = d ∧ u.status.resolves = true := by
  have hready := (List.mem_insertionSort _).mp (List.mem_of_mem_take ht)
  simp only [resolveDependencies, List.mem_filter, decide_eq_true_eq, List.all_eq_true, List.mem_map] at hready
  obtain ⟨⟨hmem, hpend⟩, hdep⟩ := hready
  refine ⟨hmem, hpend, ?_⟩
  intro d hd
  obtain ⟨u, ⟨hu, hres⟩, hid⟩ := hdep d hd
  exact ⟨u, hu, hid, hres⟩

section Claim
variable {timestamp batchId : Text} {selected : List Task}

@[simp] theorem claim_id (t : Task) : (claim timestamp batchId selected t).id = t.id := by
  unfold claim
  split <;> rfl

@[simp] theorem claim_depends (t : Task) : (claim timestamp batchId selected t).depends = t.depends := by
  unfold claim
  split <;> rfl

theorem claim_of_mem {t : Task} (ht : t ∈ selected) : claim timestamp batchId selected t =
    { t with status := .inProgress, claimedAt := some timestamp, batchId := some batchId } :=
  if_pos ht

theorem claim_of_not_pending (hsel : ∀ u ∈ selected, u.status = .pending) {t : Task} (ht : t.status ≠ .pending) :
    claim timestamp batchId selected t = t :=
  if_neg fun hmem => ht (hsel t hmem)

theorem claim_inProgress {t : Task} (ht : (claim timestamp batchId selected t).status = .inProgress) :
    t ∈ selected ∨ (claim timestamp batchId selected t = t ∧ t.status = .inProgress) := by
  by_cases hmem : t ∈ selected
  · exact Or.inl hmem
  · have hsame : claim timestamp batchId selected t = t := if_neg hmem
    rw [hsame] at ht
    exact Or.inr ⟨hsame, ht⟩

theorem claim_done_iff (hsel : ∀ u ∈ selected, u.status = .pending) (t : Task) :
    (claim timestamp batchId selected t).status = .done ↔ t.status = .done := by
  by_cases hmem : t ∈ selected
  · rw [claim_of_mem hmem, hsel t hmem]
    simp
  · rw [show claim timestamp batchId selected t = t from if_neg hmem]

end Claim

theorem no_active_of_any {batches : List Batch} (h : ¬ batches.any Batch.isActive = true) :
    ∀ b ∈ batches, b.status ≠ .active := by
  intro b hb hact
  apply h
  exact List.any_eq_true.mpr ⟨b, hb, decide_eq_true hact⟩

theorem filter_active_eq_nil {batches : List Batch} (h : ∀ b ∈ batches, b.status ≠ .active) :
    batches.filter Batch.isActive = [] := by
  apply List.filter_eq_nil_iff.mpr
  intro b hb hact
  exact h b hb (of_decide_eq_true hact)

/-- Only tasks that were pending are claimed, so nothing else of the run state moves. -/
theorem startBatch_consistent (h : Consistent s) (hidle : ∀ b ∈ s.batches, b.status ≠ .active)
    (mode timestamp : Text) (selected : List Task)
    (hsel : ∀ t ∈ selected, t ∈ s.backlog ∧ t.status = .pending) :
    Consistent (startBatch mode timestamp selected s) := by
  have hpend : ∀ u ∈ selected, u.status = .pending := fun u hu => (hsel u hu).2
  -- a task of an earlier batch was claimed before, so it is not selected again
  have hfresh : ∀ b ∈ s.batches, ∀ t ∈ selected, t.id ∉ b.taskIds := by
    intro b hb t ht hi
    obtain ⟨u, hu, hid, hst⟩ := h.listed b hb t.id hi
    rw [h.same_task hu (hsel t ht).1 hid] at hst
    exact hst (hpend t ht)
  refine ⟨?_, ?_, ?_, ?_, ?_, ?_, ?_, ?_⟩
  · simp only [startBatch, List.map_map]
    rw [show Task.id ∘ claim timestamp (nextBatchId s.batches) selected = Task.id from
      funext fun t => claim_id t]
    exact h.ids
  · simp only [startBatch, List.map_append, List.map_singleton]
    refine List.nodup_append.mpr ⟨h.batchIds, List.nodup_singleton _, ?_⟩
    intro i hi j hj heq
    rw [heq, List.mem_singleton.mp hj] at hi
    exact nextBatchId_not_mem s.batches hi
  · simp only [startBatch, List.filter_append, filter_active_eq_nil hidle, List.nil_append]
    exact (List.length_filter_le _ _).trans (by simp)
  · intro t' ht'
    obtain ⟨t, ht, rfl⟩ := List.mem_map.mp ht'
    by_cases hmem : t ∈ selected
    · rw [claim_of_mem hmem]
      exact Or.inr (Or.inl rfl)
    · rw [show claim _ _ selected t = t from if_neg hmem]
      exact h.statuses t ht
  · intro b hb i hi
    obtain hold | hnew := List.mem_append.mp hb
    · obtain ⟨u, hu, hid, hst⟩ := h.listed b hold i hi
      refine ⟨u, List.mem_map.mpr ⟨u, hu, claim_of_not_pending hpend hst⟩, hid, hst⟩
    · rw [List.mem_singleton.mp hnew] at hi
      obtain ⟨t, ht, rfl⟩ := List.mem_map.mp hi
      refine ⟨_, List.mem_map_of_mem (hsel t ht).1, claim_id t, ?_⟩
      rw [claim_of_mem ht]
      simp
  · intro b hb b' hb' i hi hi'
    obtain hold | hnew := List.mem_append.mp hb
    · obtain hold' | hnew' := List.mem_append.mp hb'
      · exact h.once b hold b' hold' i hi hi'
      · rw [List.mem_singleton.mp hnew'] at hi'
        obtain ⟨t, ht, rfl⟩ := List.mem_map.mp hi'
        exact absurd hi (hfresh b hold t ht)
    · obtain hold' | hnew' := List.mem_append.mp hb'
      · rw [List.mem_singleton.mp hnew] at hi
        obtain ⟨t, ht, rfl⟩ := List.mem_map.mp hi
        exact absurd hi' (hfresh b' hold' t ht)
      · rw [List.mem_singleton.mp hnew, List.mem_singleton.mp hnew']
  · intro t' ht' hst
    obtain ⟨t, ht, rfl⟩ := List.mem_map.mp ht'
    obtain hmem | ⟨-, hold⟩ := claim_inProgress hst
    · refine ⟨_, List.mem_append_right _ (List.mem_singleton_self _), rfl, ?_, ?_⟩
      · rw [claim_id]
        exact List.mem_map_of_mem hmem
      · rw [claim_of_mem hmem]
    · obtain ⟨b, hb, hact, -⟩ := h.claimed t ht hold
      exact absurd hact (hidle b hb)
  · simp only [startBatch, List.countP_map, h.counted]
    apply List.countP_congr
    intro t _
    simp only [Function.comp_apply, decide_eq_true_eq]
    exact (claim_done_iff hpend t).symm

/-- `batch start` changes nothing, or starts a batch of ready tasks while no batch is active. -/
theorem cmdBatchStart_cases (modeName : Option Text) (loadMode : Text → ModeFile) (now : Text) (s : RunState) :
    ((cmdBatchStart modeName loadMode now s).1 = s ∧ ∃ e, (cmdBatchStart modeName loadMode now s).2 = .failed e) ∨
      (∀ b ∈ s.batches, b.status ≠ .active) ∧
        ∃ mode n, cmdBatchStart modeName loadMode now s =
          (startBatch mode now (selectReadyTasks s n) s,
            .started (nextBatchId s.batches) mode ((selectReadyTasks s n).map Task.id)) := by
  unfold cmdBatchStart
  split
  · exact Or.inl ⟨rfl, _, rfl⟩
  next hidle =>
    simp only
    split
    · exact Or.inl ⟨rfl, _, rfl⟩
    · exact Or.inl ⟨rfl, _, rfl⟩
    next n hmode =>
      split
      · exact Or.inl ⟨rfl, _, rfl⟩
      · exact Or.inr ⟨no_active_of_any hidle, _, n, rfl⟩

theorem cmdBatchStart_consistent (h : Consistent s) (modeName : Option Text) (loadMode : Text → ModeFile)
    (now : Text) : Consistent (cmdBatchStart modeName loadMode now s).1 := by
  obtain ⟨hsame, -⟩ | ⟨hidle, mode, n, heq⟩ := cmdBatchStart_cases modeName loadMode now s
  · rw [hsame]
    exact h
  · rw [heq]
    apply startBatch_consistent h hidle
    intro t ht
    exact ⟨(mem_selectReadyTasks ht).1, (mem_selectReadyTasks ht).2.1⟩

/-! ### `batch complete` -/

theorem Consistent.statusOf_eq (h : Consistent s) {t : Task} (ht : t ∈ s.backlog) :
    statusOf s.backlog t.id = some t.status := by
  unfold statusOf
  cases hfind : s.backlog.reverse.find? fun u => decide (u.id = t.id) with
  | none =>
    have hnone := List.find?_eq_none.mp hfind t (List.mem_reverse.mpr ht)
    simp at hnone
  | some u =>
    have hu : u ∈ s.backlog := List.mem_reverse.mp (List.mem_of_find?_eq_some hfind)
    have hid : u.id = t.id := by simpa using List.find?_some hfind
    rw [h.same_task hu ht hid]
    rfl

/-- With every listed task resolved, no task is in progress. -/
theorem Consistent.nothing_inProgress (h : Consistent s) (hres : unresolvedIds s = []) :
    ∀ t ∈ s.backlog, t.status ≠ .inProgress := by
  intro t ht hst
  obtain ⟨b, hb, hact, hlist, -⟩ := h.claimed t ht hst
  have hactive : b ∈ s.batches.filter Batch.isActive := List.mem_filter.mpr ⟨hb, decide_eq_true hact⟩
  have hnone := List.filter_eq_nil_iff.mp (List.flatMap_eq_nil_iff.mp hres b hactive) t.id hlist
  simp [isResolved, h.statusOf_eq ht, hst] at hnone

section Finish
variable (backlog : List Task) (timestamp : Text) (b : Batch)

@[simp] theorem finishBatch_id : (finishBatch backlog timestamp b).id = b.id := by
  unfold finishBatch
  split <;> rfl

@[simp] theorem finishBatch_taskIds : (finishBatch backlog timestamp b).taskIds = b.taskIds := by
  unfold finishBatch
  split <;> rfl

theorem finishBatch_not_active : (finishBatch backlog timestamp b).status ≠ .active := by
  unfold finishBatch
  split
  · simp only
    split <;> simp
  next hact => exact fun hst => hact (decide_eq_true hst)

end Finish

theorem finishBatches_consistent (h : Consistent s) (hres : unresolvedIds s = []) (timestamp : Text) :
    Consistent (finishBatches timestamp s) := by
  have hidle : ∀ b ∈ (finishBatches timestamp s).batches, b.status ≠ .active := by
    intro b hb
    obtain ⟨c, -, rfl⟩ := List.mem_map.mp hb
    exact finishBatch_not_active _ _ c
  refine ⟨h.ids, ?_, ?_, h.statuses, ?_, ?_, ?_, h.counted⟩
  · simp only [finishBatches, List.map_map]
    rw [show Batch.id ∘ finishBatch s.backlog timestamp = Batch.id from
      funext fun b => finishBatch_id _ _ b]
    exact h.batchIds
  · rw [filter_active_eq_nil hidle]
    exact Nat.zero_le 1
  · intro b hb i hi
    obtain ⟨c, hc, rfl⟩ := List.mem_map.mp hb
    rw [finishBatch_taskIds] at hi
    exact h.listed c hc i hi
  · intro b hb b' hb' i hi hi'
    obtain ⟨c, hc, rfl⟩ := List.mem_map.mp hb
    obtain ⟨c', hc', rfl⟩ := List.mem_map.mp hb'
    rw [finishBatch_taskIds] at hi hi'
    rw [h.once c hc c' hc' i hi hi']
  · intro t ht hst
    exact absurd hst (h.nothing_inProgress hres t ht)

/-- `batch complete` changes nothing, or finishes the active batch once all its tasks are resolved. -/
theorem cmdBatchComplete_cases (now : Text) (s : RunState) :
    ((cmdBatchComplete now s).1 = s ∧ ∃ e, (cmdBatchComplete now s).2 = .failed e) ∨
      (unresolvedIds s = [] ∧ (cmdBatchComplete now s).1 = finishBatches now s ∧
        ∀ e, (cmdBatchComplete now s).2 ≠ .failed e) := by
  unfold cmdBatchComplete
  split
  · exact Or.inl ⟨rfl, _, rfl⟩
  · split
    · exact Or.inl ⟨rfl, _, rfl⟩
    next hres => exact Or.inr ⟨not_not.mp hres, rfl, by simp⟩

theorem cmdBatchComplete_consistent (h : Consistent s) (now : Text) :
    Consistent (cmdBatchComplete now s).1 := by
  obtain ⟨hsame, -⟩ | ⟨hres, heq, -⟩ := cmdBatchComplete_cases now s
  · rw [hsame]
    exact h
  · rw [heq]
    exact finishBatches_consistent h hres now

/-! ### Whole runs -/

theorem step_consistent (s : RunState) (i : Invocation) (h : Consistent s) : Consistent (step s i).1 := by
  unfold step
  split
  · exact h
  · unfold perform
    cases i.command with
    | add description priority depends group => exact cmdAdd_consistent h _ _ _ _ _
    | complete taskId => exact cmdComplete_consistent h taskId i.now
    | batchStart modeName => exact cmdBatchStart_consistent h modeName i.loadMode i.now
    | batchComplete => exact cmdBatchComplete_consistent h i.now
    | heartbeat => exact ⟨h.ids, h.batchIds, h.oneActive, h.statuses, h.listed, h.once, h.claimed, h.counted⟩
    | checkpoint instruction =>
      exact ⟨h.ids, h.batchIds, h.oneActive, h.statuses, h.listed, h.once, h.claimed, h.counted⟩

theorem run_consistent (sessionId startedAt : Text) (is : List Invocation) :
    Consistent (machine.run (defaultState sessionId startedAt) is) :=
  machine.run_invariant step_consistent _ is (consistent_default sessionId startedAt)

theorem step_failed (s : RunState) (i : Invocation) {e : Failure} (h : (step s i).2 = .failed e) :
    (step s i).1 = s := by
  unfold step at h ⊢
  split at h
  next hfault => simp [hfault]
  next hfault =>
    rw [if_neg hfault]
    unfold perform at h ⊢
    cases hcmd : i.command with
    | add description priority depends group => simp [hcmd, cmdAdd] at h
    | complete taskId => simp [hcmd, cmdComplete] at h
    | batchStart modeName =>
      rw [hcmd] at h
      obtain ⟨hsame, -⟩ | ⟨-, mode, n, heq⟩ := cmdBatchStart_cases modeName i.loadMode i.now s
      · exact hsame
      · simp [heq] at h
    | batchComplete =>
      rw [hcmd] at h
      obtain ⟨hsame, -⟩ | ⟨-, -, hok⟩ := cmdBatchComplete_cases i.now s
      · exact hsame
      · exact absurd h (hok e)
    | heartbeat => simp [hcmd, cmdHeartbeat] at h
    | checkpoint instruction => simp [hcmd, cmdCheckpoint] at h

/-- What a step does to the tasks: one is added, one is completed, or ready tasks are claimed. -/
theorem step_backlog (s : RunState) (i : Invocation) :
    (step s i).1.backlog = s.backlog ∨
      (∃ t, t.status = .pending ∧ (step s i).1.backlog = s.backlog ++ [t]) ∨
      (∃ pre t post, s.backlog = pre ++ t :: post ∧ t.status ≠ .done ∧
        (step s i).1.backlog = pre ++ t.complete i.now :: post) ∨
      ∃ n batchId, (step s i).1.backlog = s.backlog.map (claim i.now batchId (selectReadyTasks s n)) := by
  unfold step
  split
  · exact Or.inl rfl
  · unfold perform
    cases i.command with
    | add description priority depends group => exact Or.inr (Or.inl ⟨_, rfl, rfl⟩)
    | complete taskId =>
      obtain hsame | ⟨pre, t, post, hsplit, hst, heq⟩ := cmdComplete_cases taskId i.now s
      · exact Or.inl (by rw [hsame])
      · exact Or.inr (Or.inr (Or.inl ⟨pre, t, post, hsplit, hst, by rw [heq]⟩))
    | batchStart modeName =>
      obtain ⟨hsame, -⟩ | ⟨-, mode, n, heq⟩ := cmdBatchStart_cases modeName i.loadMode i.now s
      · exact Or.inl (by rw [hsame])
      · exact Or.inr (Or.inr (Or.inr ⟨n, nextBatchId s.batches, by simp only [heq]; rfl⟩))
    | batchComplete =>
      obtain ⟨hsame, -⟩ | ⟨-, heq, -⟩ := cmdBatchComplete_cases i.now s
      · exact Or.inl (by rw [hsame])
      · exact Or.inl (by rw [heq]; rfl)
    | heartbeat => exact Or.inl rfl
    | checkpoint instruction => exact Or.inl rfl

theorem step_keeps_done {t : Task} (i : Invocation) (ht : t ∈ s.backlog) (hst : t.status = .done) :
    t ∈ (step s i).1.backlog := by
  obtain hsame | ⟨u, -, hadd⟩ | ⟨pre, u, post, hsplit, hu, hdone⟩ | ⟨n, batchId, hclaim⟩ := step_backlog s i
  · rw [hsame]
    exact ht
  · rw [hadd]
    exact List.mem_append_left _ ht
  · rw [hdone]
    rw [hsplit] at ht
    obtain hpre | hmid := List.mem_append.mp ht
    · exact List.mem_append_left _ hpre
    · obtain rfl | hpost := List.mem_cons.mp hmid
      · exact absurd hst hu
      · exact List.mem_append_right _ (List.mem_cons_of_mem _ hpost)
  · rw [hclaim]
    refine List.mem_map.mpr ⟨t, ht, ?_⟩
    apply claim_of_not_pending
    · intro u hu
      exact (mem_selectReadyTasks hu).2.1
    · simp [hst]

theorem run_keeps_done {t : Task} (is : List Invocation) (ht : t ∈ s.backlog) (hst : t.status = .done) :
    t ∈ (machine.run s is).backlog :=
  machine.run_invariant (P := fun s => t ∈ s.backlog) (fun _ i hmem => step_keeps_done i hmem hst) s is ht

theorem Consistent.done_of_resolves (h : Consistent s) {t : Task} (ht : t ∈ s.backlog)
    (hres : t.status.resolves = true) : t.status = .done := by
  obtain hst | hst | hst := h.statuses t ht
  · simp [hst, TaskStatus.resolves] at hres
  · simp [hst, TaskStatus.resolves] at hres
  · exact hst

theorem step_starts_ready (h : Consistent s) (i : Invocation) {t : Task} (ht : t ∈ (step s i).1.backlog)
    (hst : t.status = .inProgress) :
    t ∈ s.backlog ∨ ∀ d ∈ t.depends, ∃ u ∈ s.backlog, u.id = d ∧ u.status = .done := by
  obtain hsame | ⟨u, hu, hadd⟩ | ⟨pre, u, post, hsplit, hu, hdone⟩ | ⟨n, batchId, hclaim⟩ := step_backlog s i
  · rw [hsame] at ht
    exact Or.inl ht
  · rw [hadd] at ht
    obtain hold | hnew := List.mem_append.mp ht
    · exact Or.inl hold
    · rw [List.mem_singleton.mp hnew, hu] at hst
      cases hst
  · rw [hdone] at ht
    rw [hsplit]
    obtain hpre | hmid := List.mem_append.mp ht
    · exact Or.inl (List.mem_append_left _ hpre)
    · obtain rfl | hpost := List.mem_cons.mp hmid
      · cases hst
      · exact Or.inl (List.mem_append_right _ (List.mem_cons_of_mem _ hpost))
  · rw [hclaim] at ht
    obtain ⟨v, hv, rfl⟩ := List.mem_map.mp ht
    obtain hmem | ⟨hsame, -⟩ := claim_inProgress hst
    · right
      intro d hd
      rw [claim_depends] at hd
      obtain ⟨u, hu, hid, hres⟩ := (mem_selectReadyTasks hmem).2.2 d hd
      exact ⟨u, hu, hid, h.done_of_resolves hu hres⟩
    · left
      rw [hsame]
      exact hv

end AgentWorkflow.Workflows.Scheduler
