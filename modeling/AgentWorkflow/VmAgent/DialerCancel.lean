import AgentWorkflow.VmAgent.Dialer

/-!
# What a `task.cancel` achieves

A cancel frame signals the process in `active` and touches no context, while the
reported status is derived from the task context alone. So the task is cancelled
and reported as such only when its process is registered and alive, and something
else ends its context before `Execute` derives the status.
-/

namespace AgentWorkflow.VmAgent.Dialer
open AgentWorkflow.Lib

/-- Execution is accepted and its completion not reported. -/
def Pc.unreported : Pc → Bool
  | .completed | .returning | .returned | .finished => false
  | _ => true

def Pc.beforeStart : Pc → Bool
  | .accepted | .registered | .launched | .resolve | .start => true
  | _ => false

/-- The `n`-th cancel frame killed the process, or kept it from starting. -/
def Stopped (n : ℕ) (e : Execution) : Prop :=
  e.child = .killed (.frame n) ∨ (e.child = .absent ∧ e.ctx = some (.frame n))

/-! ### Facts about every execution -/

structure Sane (frames : ℕ) (e : Execution) : Prop where
  killed : ∀ n, e.child = .killed (.frame n) → n < frames
  ctx : ∀ n, e.ctx ≠ some (.frame n)
  alive : e.child = .alive → e.pc = .started ∨ e.pc = .running
  reported : e.pc.unreported = true → e.reported = none

theorem sane_accept (frames : ℕ) (taskId : TaskId) (timeout : Bool) :
    Sane frames (.accept taskId timeout) := by
  constructor
  all_goals simp [Execution.accept]

theorem Sane.mono {n m : ℕ} {e : Execution} (h : Sane n e) (hnm : n ≤ m) : Sane m e :=
  ⟨fun k hk => (h.killed k hk).trans_le hnm, h.ctx, h.alive, h.reported⟩

theorem Sane.endContext {n : ℕ} {e : Execution} (h : Sane n e) {cause : Cause} (hcause : ∀ k, cause ≠ .frame k) :
    Sane n (endContext cause e) := by
  refine ⟨h.killed, ?_, h.alive, h.reported⟩
  intro k
  have hctx := h.ctx k
  cases hc : e.ctx with
  | none => simpa [Dialer.endContext, hc] using hcause k
  | some c => simpa [Dialer.endContext, hc] using hctx

theorem Sane.next {n : ℕ} {e : Execution} (h : Sane n e) (o : Outcome) : Sane n (e.next o) := by
  obtain ⟨hkilled, hctx, halive, hreported⟩ := h
  unfold Execution.next
  cases hpc : e.pc with
  | resolve =>
    have hdead : e.child ≠ .alive := fun hal => by simpa [hpc] using halive hal
    have hnone := hreported (by rw [hpc]; rfl)
    cases o
    all_goals exact ⟨hkilled, hctx, fun hal => absurd hal hdead, fun _ => hnone⟩
  | start =>
    have hdead : e.child ≠ .alive := fun hal => by simpa [hpc] using halive hal
    have hnone := hreported (by rw [hpc]; rfl)
    dsimp only
    split
    · exact ⟨hkilled, hctx, fun hal => absurd hal hdead, fun _ => hnone⟩
    · exact ⟨by simp, hctx, fun _ => Or.inl rfl, fun _ => hnone⟩
  | started => exact ⟨hkilled, hctx, fun _ => Or.inr rfl, fun _ => hreported (by rw [hpc]; rfl)⟩
  | running =>
    dsimp only
    split
    · exact ⟨hkilled, hctx, halive, hreported⟩
    next hdead => exact ⟨hkilled, hctx, fun hal => absurd hal hdead, fun _ => hreported (by rw [hpc]; rfl)⟩
  | returned =>
    have hdead : e.child ≠ .alive := fun hal => by simpa [hpc] using halive hal
    refine ⟨hkilled, ?_, fun hal => absurd hal hdead, by simp [Pc.unreported]⟩
    intro k
    have hk := hctx k
    cases hc : e.ctx with
    | none => simp
    | some c => simpa [hc] using hk
  | finished => exact ⟨hkilled, hctx, halive, hreported⟩
  | accepted | registered | launched | waited =>
    have hdead : e.child ≠ .alive := fun hal => by simpa [hpc] using halive hal
    exact ⟨hkilled, hctx, fun hal => absurd hal hdead, fun _ => hreported (by rw [hpc]; rfl)⟩
  | report _ | refuse | completed | returning =>
    have hdead : e.child ≠ .alive := fun hal => by simpa [hpc] using halive hal
    exact ⟨hkilled, hctx, fun hal => absurd hal hdead, by simp [Pc.unreported]⟩

def Action.framesRead : Action → ℕ
  | .cancel _ => 1
  | _ => 0

theorem step_frames (s : State) (a : Action) : (step s a).1.frames = s.frames + a.framesRead := by
  have hmodify : ∀ i f, (modify i f s).frames = s.frames := by
    intro i f
    unfold modify
    split <;> rfl
  cases a with
  | cancel taskId =>
    simp only [step, cancel]
    split <;> rfl
  | advance i o =>
    simp only [step, advance]
    split <;> rfl
  | offer | exit | expire | contextKill | sessionEnd => simp [step, hmodify, Action.framesRead]

theorem step_frames_le (s : State) (a : Action) : s.frames ≤ (step s a).1.frames := by
  rw [step_frames]
  omega

theorem Evolves.sane {s : State} {i : ℕ} {e e' : Execution} {a : Action} (h : Evolves s i e a e')
    (hsane : Sane s.frames e) : Sane (step s a).1.frames e' := by
  cases h with
  | same => exact hsane.mono (step_frames_le s a)
  | advance o => exact (hsane.next o).mono (step_frames_le s _)
  | cancel taskId hactive halive =>
    refine ⟨?_, hsane.ctx, by simp, hsane.reported⟩
    intro n hn
    simp only [Child.killed.injEq, Killer.frame.injEq] at hn
    rw [step_frames, ← hn]
    exact Nat.lt_succ_self _
  | exit ok halive => exact ⟨by simp, hsane.ctx, by simp, hsane.reported⟩
  | expire timeout => exact (hsane.endContext (by simp)).mono (step_frames_le s _)
  | contextKill done halive => exact ⟨by simp, hsane.ctx, by simp, hsane.reported⟩
  | sessionEnd => exact (hsane.endContext (by simp)).mono (step_frames_le s _)

def AllSane (s : State) : Prop := ∀ (i : ℕ) (e : Execution), s.executions[i]? = some e → Sane s.frames e

/-- An execution after a step was there before, or has just been accepted. -/
theorem step_origin {s : State} {a : Action} {i : ℕ} {e' : Execution}
    (h : (step s a).1.executions[i]? = some e') :
    (∃ e, s.executions[i]? = some e ∧ Evolves s i e a e') ∨
      (s.executions[i]? = none ∧ ∃ taskId timeout, a = .offer taskId timeout ∧ e' = .accept taskId timeout) := by
  cases hold : s.executions[i]? with
  | some e =>
    obtain ⟨e'', he'', hev⟩ := step_evolves hold a
    rw [h] at he''
    cases he''
    exact Or.inl ⟨e, rfl, hev⟩
  | none =>
    refine Or.inr ⟨rfl, ?_⟩
    have hlen : s.executions.length ≤ i := List.getElem?_eq_none_iff.mp hold
    have hmodify : ∀ j f, (modify j f s).executions.length = s.executions.length := by
      intro j f
      unfold modify
      split <;> simp
    have hbound : i < (step s a).1.executions.length := (List.getElem?_eq_some_iff.mp h).1
    cases a with
    | offer taskId timeout =>
      refine ⟨taskId, timeout, rfl, ?_⟩
      simp only [step] at h
      rw [List.getElem?_append_right hlen] at h
      exact List.mem_singleton.mp (List.mem_of_getElem? h)
    | cancel taskId =>
      have hsame : (cancel taskId s).executions.length = s.executions.length := by
        unfold cancel
        split
        · rfl
        · exact hmodify _ _
      simp only [step, hsame] at hbound
      omega
    | advance j o =>
      have hsame : (advance j o s).executions.length = s.executions.length := by
        unfold advance
        split <;> simp
      simp only [step, hsame] at hbound
      omega
    | exit | expire | contextKill =>
      simp only [step, hmodify] at hbound
      omega
    | sessionEnd =>
      simp only [step, List.length_map] at hbound
      omega

theorem step_allSane (s : State) (a : Action) (h : AllSane s) : AllSane (step s a).1 := by
  intro i e' he'
  obtain ⟨e, he, hev⟩ | ⟨-, taskId, timeout, -, rfl⟩ := step_origin he'
  · exact hev.sane (h i e he)
  · exact sane_accept _ taskId timeout

theorem run_allSane (as : List Action) : AllSane (machine.run State.init as) :=
  machine.run_invariant step_allSane State.init as (by simp [AllSane, State.init])

/-! ### The frame that kills -/

section Runs
variable {s : State} {i : ℕ}

/-- A property of one execution that no step breaks holds to the end of the run. -/
theorem run_execution {P : State → Execution → Prop}
    (hstep : ∀ s a e e', AllSane s → s.executions[i]? = some e → Evolves s i e a e' → P s e → P (step s a).1 e')
    (as : List Action) (hsane : AllSane s) {e : Execution} (he : s.executions[i]? = some e) (hP : P s e) :
    ∃ f, (machine.run s as).executions[i]? = some f ∧ P (machine.run s as) f := by
  induction as generalizing s e with
  | nil => exact ⟨e, he, hP⟩
  | cons a as ih =>
    obtain ⟨e', he', hev⟩ := step_evolves he a
    exact ih (step_allSane s a hsane) he' (hstep s a e e' hsane he hev hP)

/-- A frame of the past kills nobody any more. -/
theorem run_not_killed_by (as : List Action) (hsane : AllSane s) {e : Execution} (he : s.executions[i]? = some e)
    {n : ℕ} (hn : n < s.frames) (hnot : e.child ≠ .killed (.frame n)) {f : Execution}
    (hf : (machine.run s as).executions[i]? = some f) : f.child ≠ .killed (.frame n) := by
  obtain ⟨f', hf', -, hchild⟩ := run_execution (i := i)
    (P := fun s e => n < s.frames ∧ e.child ≠ .killed (.frame n)) (by
      intro s a e e' _ _ hev hP
      refine ⟨hP.1.trans_le (step_frames_le s a), ?_⟩
      cases hev with
      | same => exact hP.2
      | advance o =>
        unfold Execution.next
        split <;> (try split) <;> first | exact hP.2 | simp
      | cancel taskId hactive halive =>
        intro heq
        simp only [Child.killed.injEq, Killer.frame.injEq] at heq
        omega
      | exit => simp
      | expire => exact hP.2
      | contextKill => simp
      | sessionEnd => exact hP.2) as hsane he ⟨hn, hnot⟩
  rw [hf] at hf'
  cases hf'
  exact hchild

/-- Where the frame finds the registered process of `i` alive, and nowhere else, it kills it. -/
theorem stopped_iff {pre post : List Action} {taskId : TaskId} {e f : Execution}
    (he : (machine.run State.init pre).executions[i]? = some e)
    (hf : (machine.run State.init (pre ++ .cancel taskId :: post)).executions[i]? = some f) :
    Stopped (machine.run State.init pre).frames f ↔
      (machine.run State.init pre).active.lookup taskId = some i ∧ e.child = .alive := by
  have hsane := run_allSane pre
  have hend := run_allSane (pre ++ .cancel taskId :: post)
  rw [Machine.run_append, Machine.run_cons] at hf hend
  generalize machine.run State.init pre = s at *
  obtain ⟨e', he', hev⟩ := step_evolves he (.cancel taskId)
  have hsane' := step_allSane s (.cancel taskId) hsane
  have hframes : s.frames < (step s (.cancel taskId)).1.frames := by
    rw [step_frames]
    exact Nat.lt_succ_self _
  constructor
  · intro hstop
    by_contra hnot
    have hunhurt : e'.child ≠ .killed (.frame s.frames) := by
      cases hev with
      | same =>
        intro hk
        exact Nat.lt_irrefl _ ((hsane i e he).killed _ hk)
      | cancel t hactive halive => exact absurd ⟨hactive, halive⟩ hnot
    cases hstop with
    | inl hk => exact run_not_killed_by post hsane' he' hframes hunhurt hf hk
    | inr hnever => exact (hend i f hf).ctx _ hnever.2
  · rintro ⟨hactive, halive⟩
    left
    have hkilled : e'.child = .killed (.frame s.frames) ∧ (e'.pc = .started ∨ e'.pc = .running) := by
      cases hev with
      | same _ _ hkill => exact absurd halive (hkill taskId rfl hactive)
      | cancel t _ _ => exact ⟨rfl, (hsane i e he).alive halive⟩
    -- the process stays killed: only `start` makes a new one, and that is behind
    obtain ⟨f', hf', hchild, -⟩ := run_execution (i := i)
      (P := fun _ e => e.child = .killed (.frame s.frames) ∧ e.pc.beforeStart = false) (by
        intro t a g g' _ _ hev hP
        cases hev with
        | same => exact hP
        | advance o =>
          unfold Execution.next
          cases hpc : g.pc <;> simp_all [Pc.beforeStart]
        | cancel _ _ halive => simp [hP.1] at halive
        | exit _ halive => simp [hP.1] at halive
        | expire => exact hP
        | contextKill _ halive => simp [hP.1] at halive
        | sessionEnd => exact hP) post hsane' he' ⟨hkilled.1, by obtain h | h := hkilled.2 <;> rw [h] <;> rfl⟩
    change (machine.run (step s (.cancel taskId)).1 post).executions[i]? = some f at hf
    rw [hf] at hf'
    cases hf'
    exact hchild

/-! ### The status that is reported -/

/-- Whenever execution `i` derives its status, its context has ended. -/
def EndedBeforeStatus (i : ℕ) (s : State) (as : List Action) : Prop :=
  ∀ before o after, as = before ++ .advance i o :: after →
    ∀ e, (machine.run s before).executions[i]? = some e → e.pc = .waited → e.ctx ≠ none

theorem EndedBeforeStatus.tail {a : Action} {as : List Action} (h : EndedBeforeStatus i s (a :: as)) :
    EndedBeforeStatus i (step s a).1 as := by
  intro before o after heq e he hpc
  exact h (a :: before) o after (by rw [heq]; rfl) e he hpc

/-- Under way to a `canceled` completion. -/
def Canceling (e : Execution) : Prop :=
  e.pc = .started ∨ e.pc = .running ∨ e.pc = .waited ∨ e.pc = .report .canceled ∨
    (e.pc.unreported = false ∧ e.reported = some .canceled)

theorem Canceling.next {e : Execution} (h : Canceling e) (hended : e.pc = .waited → e.ctx ≠ none) (o : Outcome) :
    Canceling (e.next o) := by
  unfold Execution.next
  obtain hpc | hpc | hpc | hpc | ⟨hpc, hrep⟩ := h
  · rw [hpc]
    exact Or.inr (Or.inl rfl)
  · simp only [hpc]
    split
    · exact Or.inr (Or.inl hpc)
    · exact Or.inr (Or.inr (Or.inl rfl))
  · simp only [hpc]
    right; right; right; left
    simp [Execution.status, hended hpc]
  · simp only [hpc]
    right; right; right; right
    exact ⟨rfl, rfl⟩
  · right; right; right; right
    cases hp : e.pc <;> simp_all [Pc.unreported]

theorem run_canceling (as : List Action) {e f : Execution} (he : s.executions[i]? = some e) (h : Canceling e)
    (hended : EndedBeforeStatus i s as) (hf : (machine.run s as).executions[i]? = some f) : Canceling f := by
  induction as generalizing s e with
  | nil =>
    rw [Machine.run_nil, he] at hf
    cases hf
    exact h
  | cons a as ih =>
    obtain ⟨e', he', hev⟩ := step_evolves he a
    apply ih he' _ hended.tail hf
    cases hev with
    | advance o => exact h.next (hended [] o as rfl e he) o
    | same | cancel | exit | expire | contextKill | sessionEnd => exact h

/-- Once derived, the status is the one that is reported. -/
theorem run_reports (as : List Action) (hsane : AllSane s) {e f : Execution} {status : CompleteStatus}
    (he : s.executions[i]? = some e) (hpc : e.pc = .report status)
    (hf : (machine.run s as).executions[i]? = some f) :
    f.pc = .report status ∨ (f.pc.unreported = false ∧ f.reported = some status) := by
  obtain ⟨f', hf', h⟩ := run_execution (i := i)
    (P := fun _ e => e.pc = .report status ∨ (e.pc.unreported = false ∧ e.reported = some status)) (by
      intro s a e e' _ _ hev hP
      cases hev with
      | advance o =>
        unfold Execution.next
        obtain hpc | ⟨hpc, hrep⟩ := hP
        · simp [hpc, Pc.unreported]
        · right
          cases hp : e.pc <;> simp_all [Pc.unreported]
      | same | cancel | exit | expire | contextKill | sessionEnd => exact hP) as hsane he (Or.inl hpc)
  rw [hf] at hf'
  cases hf'
  exact h

theorem status_ne_canceled {e : Execution} (h : e.ctx = none) : e.status ≠ .canceled := by
  unfold Execution.status
  rw [if_neg (not_not.mpr h)]
  split <;> simp

theorem run_not_canceled (as : List Action) (hsane : AllSane s) {f : Execution}
    (hf : (machine.run s as).executions[i]? = some f) (hrep : f.reported = some .canceled) :
    EndedBeforeStatus i s as := by
  intro before o after heq e he hpc hctx
  have hmid : AllSane (machine.run s before) := machine.run_invariant step_allSane s before hsane
  have hend : AllSane (machine.run s as) := machine.run_invariant step_allSane s as hsane
  obtain ⟨e', he', hev⟩ := step_evolves he (.advance i o)
  have hreport : e'.pc = .report e.status := by
    cases hev with
    | same _ ha => exact absurd rfl (ha o)
    | advance _ => simp [Execution.next, hpc]
  have hsplit : machine.run s as = machine.run (step (machine.run s before) (.advance i o)).1 after := by
    rw [heq, Machine.run_append]
    rfl
  rw [hsplit] at hf hend
  obtain hlast | ⟨-, hlast⟩ := run_reports after (step_allSane _ _ hmid) he' hreport hf
  · have hnone := (hend i f hf).reported (by rw [hlast]; rfl)
    rw [hrep] at hnone
    cases hnone
  · rw [hrep] at hlast
    exact status_ne_canceled hctx (Option.some.inj hlast).symm

end Runs

/-- A cancel frame achieves what it should exactly when it finds the process of the
execution registered and alive, and the task context ends by other means before
the status is derived. -/
theorem cancel_effective_iff (pre post : List Action) (taskId : TaskId) (i : ℕ) (e f : Execution)
    (status : CompleteStatus) (he : (machine.run State.init pre).executions[i]? = some e)
    (hf : (machine.run State.init (pre ++ .cancel taskId :: post)).executions[i]? = some f)
    (hrep : f.reported = some status) :
    (Stopped (machine.run State.init pre).frames f ∧ status = .canceled) ↔
      ((machine.run State.init pre).active.lookup taskId = some i ∧ e.child = .alive ∧
        EndedBeforeStatus i (step (machine.run State.init pre) (.cancel taskId)).1 post) := by
  have hstop := stopped_iff (i := i) he hf
  have hsane := run_allSane pre
  have hend := run_allSane (pre ++ .cancel taskId :: post)
  have hsplit : machine.run State.init (pre ++ .cancel taskId :: post) =
      machine.run (step (machine.run State.init pre) (.cancel taskId)).1 post := by
    rw [Machine.run_append]
    rfl
  have hsane' := step_allSane _ (.cancel taskId) hsane
  constructor
  · rintro ⟨hs, rfl⟩
    obtain ⟨hactive, halive⟩ := hstop.mp hs
    rw [hsplit] at hf
    exact ⟨hactive, halive, run_not_canceled post hsane' hf hrep⟩
  · rintro ⟨hactive, halive, hended⟩
    refine ⟨hstop.mpr ⟨hactive, halive⟩, ?_⟩
    obtain ⟨e', he', hev⟩ := step_evolves he (.cancel taskId)
    have hpc : e'.pc = .started ∨ e'.pc = .running := by
      cases hev with
      | same _ _ hkill => exact absurd halive (hkill taskId rfl hactive)
      | cancel t _ _ => exact (hsane i e he).alive halive
    have hcanceling : Canceling e' := by
      obtain h | h := hpc
      · exact Or.inl h
      · exact Or.inr (Or.inl h)
    rw [hsplit] at hf hend
    obtain h | h | h | h | ⟨-, hlast⟩ := run_canceling post he' hcanceling hended hf
    · simp [(hend i f hf).reported (by rw [h]; rfl)] at hrep
    · simp [(hend i f hf).reported (by rw [h]; rfl)] at hrep
    · simp [(hend i f hf).reported (by rw [h]; rfl)] at hrep
    · simp [(hend i f hf).reported (by rw [h]; rfl)] at hrep
    · rw [hrep] at hlast
      exact Option.some.inj hlast

/-! ### Runs of one task -/

def sampleId : TaskId := [116, 49]

def advances (i n : ℕ) : List Action := List.replicate n (.advance i .ok)

/-- The offer is accepted, the process started and registered. -/
def sampleStart : List Action := .offer sampleId true :: advances 0 6

def sampleRunning : Execution := ⟨sampleId, true, .running, none, .alive, none⟩

def sampleCanceled : Execution :=
  ⟨sampleId, true, .completed, some .deadline, .killed (.frame 0), some .canceled⟩

theorem cancel_effective_iff_sample :
    (Stopped (machine.run State.init sampleStart).frames sampleCanceled ∧ CompleteStatus.canceled = .canceled) ↔
      ((machine.run State.init sampleStart).active.lookup sampleId = some 0 ∧ sampleRunning.child = .alive ∧
        EndedBeforeStatus 0 (step (machine.run State.init sampleStart) (.cancel sampleId)).1
          (.expire 0 :: advances 0 3)) := by
  apply cancel_effective_iff
  · decide +kernel
  · decide +kernel
  · rfl

/-- A cancel frame that kills the process of a running task: the task reports an
error. One that comes before the process is registered does nothing at all. -/
theorem canceled_task_reports_error :
    (∃ f, (machine.run State.init (sampleStart ++ .cancel sampleId :: advances 0 3)).executions[0]? = some f ∧
      f.child = .killed (.frame 0) ∧ f.reported = some .error ∧ f.reported ≠ some .canceled) ∧
    ∃ f, (machine.run State.init (.offer sampleId true :: advances 0 3 ++ .cancel sampleId :: advances 0 3 ++
        .exit 0 true :: advances 0 3)).executions[0]? = some f ∧
      ¬ Stopped 0 f ∧ f.reported = some .success ∧ f.reported ≠ some .canceled := by
  refine ⟨⟨⟨sampleId, true, .completed, none, .killed (.frame 0), some .error⟩, ?_, rfl, rfl, by decide⟩,
    ⟨sampleId, true, .completed, none, .exited true, some .success⟩, ?_, ?_, rfl, by decide⟩
  · decide +kernel
  · decide +kernel
  · simp [Stopped]

end AgentWorkflow.VmAgent.Dialer
