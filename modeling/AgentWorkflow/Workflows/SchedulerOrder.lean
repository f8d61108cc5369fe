import AgentWorkflow.Workflows.SchedulerInvariant
import AgentWorkflow.Lib.Sorting

/-!
# Which tasks a batch takes

`_select_ready_tasks` sorts by priority and then by id. The ids are numbered in the
order of creation, but compared as text: the two orders part once the numbers have
four digits.
-/

namespace AgentWorkflow.Workflows.Scheduler
open AgentWorkflow.Lib AgentWorkflow.Lib.Calendar

/-! ### Ids number the backlog -/

def Named (backlog : List Task) : Prop :=
  backlog.map Task.id = (List.range backlog.length).map fun i => Numbered.name taskPrefix (i + 1)

theorem Named.next {backlog : List Task} (h : Named backlog) :
    nextTaskId backlog = Numbered.name taskPrefix (backlog.length + 1) := by
  have hmax := Numbered.maxNumber_range _ (Numbered.matchNumber_name taskPrefix) backlog.length
  rw [Named] at h
  rw [nextTaskId, h, hmax]

theorem Named.of_ids {backlog backlog' : List Task} (h : Named backlog)
    (hids : backlog'.map Task.id = backlog.map Task.id) : Named backlog' := by
  have hlen : backlog'.length = backlog.length := by
    have := congrArg List.length hids
    simpa only [List.length_map] using this
  rw [Named, hids, hlen]
  exact h

theorem Named.snoc {backlog : List Task} (h : Named backlog) {t : Task} (ht : t.id = nextTaskId backlog) :
    Named (backlog ++ [t]) := by
  have hnext := h.next
  rw [Named] at h ⊢
  rw [List.map_append, h, List.length_append, List.length_singleton, List.range_succ, List.map_append]
  simp only [List.map_singleton]
  rw [ht, hnext]

variable {s : RunState}

/-- A command keeps the ids, or adds the next one. -/
theorem step_ids (s : RunState) (i : Invocation) :
    (step s i).1.backlog.map Task.id = s.backlog.map Task.id ∨
      ∃ t, t.id = nextTaskId s.backlog ∧ (step s i).1.backlog = s.backlog ++ [t] := by
  unfold step
  split
  · exact Or.inl rfl
  · unfold perform
    cases i.command with
    | add description priority depends group => exact Or.inr ⟨_, rfl, rfl⟩
    | complete taskId =>
      refine Or.inl ?_
      obtain hsame | ⟨pre, t, post, hsplit, -, heq⟩ := cmdComplete_cases taskId i.now s
      · rw [hsame]
      · simp only [heq, hsplit, List.map_append, List.map_cons]
        rfl
    | batchStart modeName =>
      refine Or.inl ?_
      obtain ⟨hsame, -⟩ | ⟨-, mode, n, heq⟩ := cmdBatchStart_cases modeName i.loadMode i.now s
      · rw [hsame]
      · simp only [heq, startBatch, List.map_map]
        refine List.map_congr_left ?_
        intro t _
        exact claim_id t
    | batchComplete =>
      refine Or.inl ?_
      obtain ⟨hsame, -⟩ | ⟨-, heq, -⟩ := cmdBatchComplete_cases i.now s
      · rw [hsame]
      · rw [heq]
        rfl
    | heartbeat => exact Or.inl rfl
    | checkpoint instruction => exact Or.inl rfl

theorem step_named (i : Invocation) (h : Named s.backlog) : Named (step s i).1.backlog := by
  obtain hids | ⟨t, ht, hadd⟩ := step_ids s i
  · exact h.of_ids hids
  · rw [hadd]
    exact h.snoc ht

theorem run_named (sessionId startedAt : Text) (is : List Invocation) :
    Named (machine.run (defaultState sessionId startedAt) is).backlog :=
  machine.run_invariant (P := fun s => Named s.backlog) (fun _ i h => step_named i h) _ is rfl

/-! ### The two orders -/

def readyTasks (s : RunState) : List Task :=
  resolveDependencies (s.backlog.filter fun t => decide (t.status = .pending)) s.backlog

theorem selectReadyTasks_eq (s : RunState) (n : ℤ) :
    selectReadyTasks s n = ((readyTasks s).insertionSort Task.sortsBefore).take (max 1 n).toNat := rfl

theorem readyTasks_subset {t : Task} (h : t ∈ readyTasks s) : t ∈ s.backlog :=
  List.mem_of_mem_filter (List.mem_of_mem_filter h)

/-- By priority, and then by the place in the backlog, which grows at its end only. -/
def createdBefore (backlog : List Task) (a b : Task) : Prop :=
  a.priority < b.priority ∨ (a.priority = b.priority ∧ backlog.idxOf a ≤ backlog.idxOf b)

instance (backlog : List Task) : DecidableRel (createdBefore backlog) :=
  fun _ _ => inferInstanceAs (Decidable (_ ∨ _))

def firstReady (s : RunState) (n : ℤ) : List Task :=
  ((readyTasks s).insertionSort (createdBefore s.backlog)).take (max 1 n).toNat

instance (backlog : List Task) : Std.Total (createdBefore backlog) where
  total a b := by
    simp only [createdBefore]
    omega

instance (backlog : List Task) : IsTrans Task (createdBefore backlog) where
  trans a b c hab hbc := by
    simp only [createdBefore] at hab hbc ⊢
    omega

instance : Std.Total Task.sortsBefore where
  total a b := by
    simp only [Task.sortsBefore]
    rcases Nat.lt_trichotomy a.priority b.priority with h | h | h
    · exact Or.inl (Or.inl h)
    · cases le_total a.id b.id with
      | inl hid => exact Or.inl (Or.inr ⟨h, hid⟩)
      | inr hid => exact Or.inr (Or.inr ⟨h.symm, hid⟩)
    · exact Or.inr (Or.inl h)

instance : IsTrans Task Task.sortsBefore where
  trans a b c hab hbc := by
    simp only [Task.sortsBefore] at hab hbc ⊢
    rcases hab with hab | ⟨hab, hidab⟩
    · omega
    · rcases hbc with hbc | ⟨hbc, hidbc⟩
      · omega
      · exact Or.inr ⟨hab.trans hbc, hidab.trans hidbc⟩

theorem antisymm_createdBefore (s : RunState) :
    Sorting.AntisymmOn (createdBefore s.backlog) (readyTasks s) := by
  intro a ha b hb hab hba
  simp only [createdBefore] at hab hba
  have hidx : s.backlog.idxOf a = s.backlog.idxOf b := by omega
  exact (List.idxOf_inj (readyTasks_subset ha)).mp hidx

theorem Consistent.antisymm_sortsBefore (h : Consistent s) :
    Sorting.AntisymmOn Task.sortsBefore (readyTasks s) := by
  intro a ha b hb hab hba
  simp only [Task.sortsBefore] at hab hba
  have hid : a.id = b.id := by
    rcases hab with hab | ⟨hpri, hab⟩ <;> rcases hba with hba | ⟨hpri, hba⟩
    · omega
    · omega
    · omega
    · exact le_antisymm hab hba
  exact h.same_task (readyTasks_subset ha) (readyTasks_subset hb) hid

/-! ### Selection in the order of creation -/

structure InCreationOrder (s : RunState) (n : ℤ) : Prop where
  precedes : ∀ a ∈ readyTasks s, ∀ b ∈ selectReadyTasks s n, a.priority = b.priority →
    s.backlog.idxOf a < s.backlog.idxOf b → [a, b].Sublist (selectReadyTasks s n)
  first : selectReadyTasks s n = firstReady s n

/-- The ids of the first ready tasks sort before those of later tasks of their priority. -/
def IdsFollow (s : RunState) (n : ℤ) : Prop :=
  ∀ a ∈ firstReady s n, ∀ b ∈ readyTasks s, a.priority = b.priority →
    s.backlog.idxOf a < s.backlog.idxOf b → a.id ≤ b.id

theorem precedes_of_first {n : ℤ} (h : selectReadyTasks s n = firstReady s n) : InCreationOrder s n := by
  refine ⟨?_, h⟩
  intro a ha b hb hpri hlt
  rw [h] at hb ⊢
  refine Sorting.before_in_take ha hb ?_
  simp only [createdBefore]
  omega

theorem Consistent.selection_iff (h : Consistent s) (n : ℤ) : InCreationOrder s n ↔ IdsFollow s n := by
  have hfirst : selectReadyTasks s n = firstReady s n ↔
      ∀ a ∈ firstReady s n, ∀ b ∈ readyTasks s, createdBefore s.backlog a b → a.sortsBefore b :=
    Sorting.take_eq_iff h.antisymm_sortsBefore (antisymm_createdBefore s) (max 1 n).toNat
  constructor
  · intro horder a ha b hb hpri hlt
    have hsorts := hfirst.mp horder.first a ha b hb (Or.inr ⟨hpri, hlt.le⟩)
    rcases hsorts with hlow | ⟨-, hid⟩
    · omega
    · exact hid
  · intro hids
    refine precedes_of_first (hfirst.mpr ?_)
    intro a ha b hb hab
    rcases hab with hlow | ⟨hpri, hle⟩
    · exact Or.inl hlow
    · refine Or.inr ⟨hpri, ?_⟩
      rcases Nat.lt_or_eq_of_le hle with hlt | heq
      · exact hids a ha b hb hpri hlt
      · have hab := (List.idxOf_inj (readyTasks_subset (Sorting.mem_of_mem_take ha))).mp heq
        rw [hab]

theorem Named.id_eq (h : Named s.backlog) {t : Task} (ht : t ∈ s.backlog) :
    t.id = Numbered.name taskPrefix (s.backlog.idxOf t + 1) := by
  have hidx : s.backlog.idxOf t < s.backlog.length := List.idxOf_lt_length_iff.mpr ht
  have hget := congrArg (fun ids : List Text => ids[s.backlog.idxOf t]?) h
  simp only [List.getElem?_map, List.getElem?_range hidx, List.getElem?_idxOf ht, Option.map_some,
    Option.some.injEq] at hget
  exact hget

/-- While no number has four digits the two orders are one. -/
theorem Named.idsFollow (h : Named s.backlog) (hlen : s.backlog.length < 1000) (n : ℤ) : IdsFollow s n := by
  intro a ha b hb _ hlt
  have hmemA := readyTasks_subset (Sorting.mem_of_mem_take ha)
  have hmemB := readyTasks_subset hb
  have hidx : s.backlog.idxOf b < s.backlog.length := List.idxOf_lt_length_iff.mpr hmemB
  rw [h.id_eq hmemA, h.id_eq hmemB]
  exact (Numbered.name_lt_name taskPrefix (by omega) (by omega)).le

theorem selection_in_creation_order_iff (sessionId startedAt : Text) (is : List Invocation) (n : ℤ) :
    let s := machine.run (defaultState sessionId startedAt) is
    InCreationOrder s n ↔ IdsFollow s n := by
  intro s
  exact (run_consistent sessionId startedAt is).selection_iff n

/-! ### A thousand tasks -/

def addInvocation : Invocation :=
  { command := .add [] 5 [] none, now := [], loadMode := fun _ => .missing, fault := false }

def plainTask (k : ℕ) : Task :=
  { id := Numbered.name taskPrefix (k + 1), description := [], priority := 5, status := .pending, createdAt := [],
    depends := [], group := none, completedAt := none, claimedAt := none, batchId := none }

def addedTasks (k : ℕ) : RunState := machine.run (defaultState [] []) (List.replicate k addInvocation)

theorem backlog_addedTasks (k : ℕ) : (addedTasks k).backlog = (List.range k).map plainTask := by
  induction k with
  | zero => rfl
  | succ k ih =>
    have hnamed : Named (addedTasks k).backlog := run_named [] [] (List.replicate k addInvocation)
    have hnext : nextTaskId (addedTasks k).backlog = Numbered.name taskPrefix (k + 1) := by
      rw [hnamed.next, ih, List.length_map, List.length_range]
    have hstep : (addedTasks (k + 1)).backlog =
        (addedTasks k).backlog ++ [{ plainTask k with id := nextTaskId (addedTasks k).backlog }] := by
      rw [addedTasks, List.replicate_succ', Machine.run_snoc]
      rfl
    rw [hstep, hnext, ih, List.range_succ, List.map_append]
    rfl

theorem ready_addedTasks (k : ℕ) : readyTasks (addedTasks k) = (addedTasks k).backlog := by
  have hplain : ∀ t ∈ (addedTasks k).backlog, t.status = .pending ∧ t.depends = [] := by
    intro t ht
    rw [backlog_addedTasks, List.mem_map] at ht
    obtain ⟨i, -, rfl⟩ := ht
    exact ⟨rfl, rfl⟩
  have hpending : ((addedTasks k).backlog.filter fun t => decide (t.status = .pending)) = (addedTasks k).backlog :=
    List.filter_eq_self.mpr fun t ht => by simp [(hplain t ht).1]
  rw [readyTasks, hpending]
  exact List.filter_eq_self.mpr fun t ht => by simp [(hplain t ht).2]

theorem idxOf_addedTasks {k i : ℕ} (h : i < k) : (addedTasks k).backlog.idxOf (plainTask i) = i := by
  have hids : ((addedTasks k).backlog.map Task.id).Nodup :=
    (run_consistent [] [] (List.replicate k addInvocation)).ids
  have hget : (addedTasks k).backlog[i]? = some (plainTask i) := by
    rw [backlog_addedTasks, List.getElem?_map, List.getElem?_range h]
    rfl
  obtain ⟨hi, heq⟩ := List.getElem?_eq_some_iff.mp hget
  rw [← heq]
  exact List.Nodup.idxOf_getElem (List.Nodup.of_map _ hids) i hi

/-- Of 1000 tasks of one priority the last is taken before the 101st. -/
theorem later_task_selected_first : ¬ ∀ is n, InCreationOrder (machine.run (defaultState [] []) is) n := by
  intro h
  have horder : InCreationOrder (addedTasks 1000) 1000 := h (List.replicate 1000 addInvocation) 1000
  have hcons : Consistent (addedTasks 1000) := run_consistent [] [] (List.replicate 1000 addInvocation)
  have hmem : ∀ i < 1000, plainTask i ∈ readyTasks (addedTasks 1000) := by
    intro i hi
    rw [ready_addedTasks, backlog_addedTasks]
    exact List.mem_map_of_mem (List.mem_range.mpr hi)
  have hfirst : plainTask 100 ∈ firstReady (addedTasks 1000) 1000 := by
    have hlen : (readyTasks (addedTasks 1000)).length ≤ (max 1 1000 : ℤ).toNat := by
      rw [ready_addedTasks, backlog_addedTasks, List.length_map, List.length_range]
      decide
    rw [firstReady, List.take_of_length_le (by rw [List.length_insertionSort]; exact hlen)]
    exact (List.mem_insertionSort _).mpr (hmem 100 (by decide))
  have hle := (hcons.selection_iff 1000).mp horder (plainTask 100) hfirst (plainTask 999) (hmem 999 (by decide)) rfl
    (by rw [idxOf_addedTasks (by decide), idxOf_addedTasks (by decide)]; decide)
  exact absurd hle (by decide)

end AgentWorkflow.Workflows.Scheduler
