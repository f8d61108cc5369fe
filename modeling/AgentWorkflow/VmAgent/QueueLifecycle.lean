import AgentWorkflow.VmAgent.QueueRows

/-!
# The lifecycle of a queued result

Runs of the queue calls, in any order and with any arguments. A call may also
fail before it does anything: the lock, a closed queue, the context or the
database.
-/

namespace AgentWorkflow.VmAgent
open AgentWorkflow.Lib

structure QueueCall where
  op : QueueOp
  fault : Option QueueError

structure QueueEvent where
  op : QueueOp
  reply : Except QueueError Reply

/-- `RequeueUploading` without ids returns before it takes the lock. -/
def QueueCall.perform (sha256 : Bytes → Bytes) (cfg : QueueConfig) (q : Queue) (c : QueueCall) :
    Queue × QueueEvent :=
  match c.fault with
  | some e =>
    if c.op = .requeueUploading [] then (q, ⟨c.op, .ok .done⟩) else (q, ⟨c.op, .error e⟩)
  | none =>
    let out := c.op.exec sha256 cfg q
    (out.2, ⟨c.op, out.1⟩)

def queueMachine (sha256 : Bytes → Bytes) (cfg : QueueConfig) : Machine Queue QueueCall QueueEvent :=
  ⟨QueueCall.perform sha256 cfg⟩

def QueueEvent.claims (id : ℤ) (e : QueueEvent) : Prop := id ∈ claimedIds e.reply

/-- A successful call that releases the row if it is uploading. -/
def QueueEvent.releases (id : ℤ) (e : QueueEvent) : Prop :=
  (∃ x, e.reply = .ok x) ∧
    ((∃ reason maxRetries now, e.op = .markFailed id reason maxRetries now) ∨
      (∃ ids, e.op = .requeueUploading ids ∧ id ∈ ids) ∨ e.op = .reclaimUploading)

/-- Successful `MarkFailed` calls on the row. -/
def failures (h : List QueueEvent) (id : ℤ) : ℕ := h.countP fun e => e.op.fails id e.reply

section Steps
variable {sha256 : Bytes → Bytes} (cfg : QueueConfig) {q : Queue}

theorem perform_inv (hq : q.Inv sha256) (c : QueueCall) : (c.perform sha256 cfg q).1.Inv sha256 := by
  unfold QueueCall.perform
  cases c.fault with
  | some e =>
    dsimp only
    split_ifs <;> exact hq
  | none => exact exec_inv cfg hq c.op

theorem perform_lastId_le (hq : q.Inv sha256) (c : QueueCall) :
    q.lastId ≤ (c.perform sha256 cfg q).1.lastId := by
  unfold QueueCall.perform
  cases c.fault with
  | some e =>
    dsimp only
    split_ifs <;> exact le_rfl
  | none => exact exec_lastId_le hq c.op

theorem perform_op (c : QueueCall) : (c.perform sha256 cfg q).2.op = c.op := by
  unfold QueueCall.perform
  cases c.fault with
  | some e =>
    dsimp only
    split_ifs <;> rfl
  | none => rfl

theorem perform_stepRow (hq : q.Inv sha256) (c : QueueCall) (id : ℤ) :
    StepRow cfg q c.op (c.perform sha256 cfg q).2.reply id (q.row id) ((c.perform sha256 cfg q).1.row id) := by
  unfold QueueCall.perform
  cases c.fault with
  | some e =>
    dsimp only
    split_ifs with hop
    · rw [hop]
      exact .same _ rfl (by simp [claimedIds])
    · exact .same _ (by cases c.op <;> rfl) (by simp [claimedIds])
  | none => exact stepRow hq c.op id

theorem perform_error {c : QueueCall} {e : QueueError} (hq : q.Inv sha256)
    (h : (c.perform sha256 cfg q).2.reply = .error e) : (c.perform sha256 cfg q).1 = q := by
  unfold QueueCall.perform at h ⊢
  cases hf : c.fault with
  | some e =>
    dsimp only
    split_ifs <;> rfl
  | none =>
    rw [hf] at h
    exact exec_error hq h

end Steps

/-- An id past the sequence has no row. -/
theorem row_none_of_lt {sha256 : Bytes → Bytes} {q : Queue} (hq : q.Inv sha256) {id : ℤ} (h : q.lastId < id) : q.row id = none := by
  unfold Queue.row
  rw [Table.find_none]
  intro r hr
  have hb := hq.bound r hr
  omega

theorem id_le_lastId {sha256 : Bytes → Bytes} {q : Queue} (hq : q.Inv sha256) {id : ℤ} {r : Row} (h : q.row id = some r) : id ≤ q.lastId := by
  obtain ⟨hr, rfl⟩ := Queue.row_mem h
  exact hq.bound r hr

/-! ### Terminal rows -/

theorem StepRow.terminal {cfg : QueueConfig} {q : Queue} {op : QueueOp} {reply : Except QueueError Reply}
    {id : ℤ} {r : Row} {after : Option Row} (h : StepRow cfg q op reply id (some r) after)
    (hr : r.status = .uploaded ∨ r.status = .dropped) :
    after = some r ∨ (after = none ∧ r.status = .uploaded ∧ ∃ cutoff, op = .prune cutoff) := by
  have hnot : r.status ≠ .queued ∧ r.status ≠ .uploading := by
    rcases hr with hr | hr <;> simp [hr]
  have hlive : ¬ (r.status = .uploading ∨ r.status = .queued) := by
    tauto
  cases h with
  | same => exact Or.inl rfl
  | claim _ _ _ _ _ hq => exact absurd hq hnot.1
  | upload _ _ _ _ hl => exact absurd hl hlive
  | fail _ _ _ _ _ _ hl => exact absurd hl hlive
  | drop _ _ _ _ _ hl => exact absurd hl hlive
  | release _ _ _ _ hu => exact absurd hu hnot.2
  | prune _ cutoff hop _ hu => exact Or.inr ⟨rfl, hu, cutoff, hop⟩

theorem StepRow.absent {cfg : QueueConfig} {q : Queue} {op : QueueOp} {reply : Except QueueError Reply}
    {id : ℤ} {after : Option Row} (h : StepRow cfg q op reply id none after) (hle : id ≤ q.lastId) :
    after = none := by
  cases h with
  | same => rfl
  | create r taskId payload now _ _ hnew _ => omega

theorem run_inv {sha256 : Bytes → Bytes} (cfg : QueueConfig) {q : Queue} (hq : q.Inv sha256)
    (calls : List QueueCall) : ((queueMachine sha256 cfg).run q calls).Inv sha256 :=
  (queueMachine sha256 cfg).run_invariant (P := Queue.Inv sha256) (fun _ c h => perform_inv cfg h c) q calls hq

theorem run_dropped {sha256 : Bytes → Bytes} (cfg : QueueConfig) {q : Queue} (hq : q.Inv sha256)
    (calls : List QueueCall) {id : ℤ} {r : Row} (hr : q.row id = some r) (hd : r.status = .dropped) :
    ((queueMachine sha256 cfg).run q calls).row id = some r := by
  refine ((queueMachine sha256 cfg).run_invariant (P := fun q => q.Inv sha256 ∧ q.row id = some r)
    (fun q c h => ⟨perform_inv cfg h.1 c, ?_⟩) q calls ⟨hq, hr⟩).2
  have hstep := perform_stepRow cfg h.1 c id
  rw [h.2] at hstep
  rcases hstep.terminal (Or.inr hd) with hafter | ⟨-, hup, -⟩
  · exact hafter
  · rw [hd] at hup
    cases hup

theorem run_uploaded {sha256 : Bytes → Bytes} (cfg : QueueConfig) {q : Queue} (hq : q.Inv sha256)
    (calls : List QueueCall) {id : ℤ} {r : Row} (hr : q.row id = some r) (hup : r.status = .uploaded) :
    ((queueMachine sha256 cfg).run q calls).row id = some r ∨
    (((queueMachine sha256 cfg).run q calls).row id = none ∧
      ∃ e ∈ (queueMachine sha256 cfg).trace q calls, ∃ cutoff, e.op = .prune cutoff) := by
  refine ((queueMachine sha256 cfg).history_invariant
    (P := fun h q => q.Inv sha256 ∧ id ≤ q.lastId ∧
      (q.row id = some r ∨ (q.row id = none ∧ ∃ e ∈ h, ∃ cutoff, e.op = .prune cutoff)))
    ⟨hq, id_le_lastId hq hr, Or.inl hr⟩ (fun h q c hh => ?_) calls).2.2
  obtain ⟨hinv, hle, hrow⟩ := hh
  have hstep := perform_stepRow cfg hinv c id
  refine ⟨perform_inv cfg hinv c, hle.trans (perform_lastId_le cfg hinv c), ?_⟩
  rcases hrow with hrow | ⟨hnone, e, he, cutoff, hop⟩
  · rw [hrow] at hstep
    rcases hstep.terminal (Or.inl hup) with hafter | ⟨hafter, -, cutoff, hop⟩
    · exact Or.inl hafter
    · refine Or.inr ⟨hafter, (c.perform sha256 cfg q).2, by simp [queueMachine], cutoff, ?_⟩
      rw [perform_op, hop]
  · refine Or.inr ⟨?_, e, List.mem_append_left _ he, cutoff, hop⟩
    rw [hnone] at hstep
    exact hstep.absent hle

/-! ### The history of a row -/

/-- How the rows record the calls so far: every retry is a `MarkFailed`, a row
handed out and not released is not queued, and nothing happened yet to ids that
the sequence has not reached. -/
structure Recorded (sha256 : Bytes → Bytes) (h : List QueueEvent) (q : Queue) : Prop where
  inv : q.Inv sha256
  retries : ∀ id r, q.row id = some r → failures h id = r.retryCount
  held : ∀ id r, q.row id = some r → Since (QueueEvent.claims id) (QueueEvent.releases id) h → r.status ≠ .queued
  future : ∀ id, q.lastId < id → failures h id = 0 ∧ ¬ Since (QueueEvent.claims id) (QueueEvent.releases id) h

theorem failures_snoc (h : List QueueEvent) (e : QueueEvent) (id : ℤ) :
    failures (h ++ [e]) id = failures h id + if e.op.fails id e.reply then 1 else 0 := by
  simp [failures, List.countP_append, List.countP_cons]

/-- One call, as seen from one row and its history. -/
theorem StepRow.recorded {cfg : QueueConfig} {q : Queue} {e : QueueEvent} {id : ℤ} {before after : Option Row}
    {h : List QueueEvent} (hs : StepRow cfg q e.op e.reply id before after)
    (hretries : ∀ r, before = some r → failures h id = r.retryCount)
    (hheld : ∀ r, before = some r → Since (QueueEvent.claims id) (QueueEvent.releases id) h → r.status ≠ .queued)
    (hfuture : q.lastId < id → failures h id = 0 ∧ ¬ Since (QueueEvent.claims id) (QueueEvent.releases id) h) :
    ∀ r', after = some r' → failures (h ++ [e]) id = r'.retryCount ∧
      (Since (QueueEvent.claims id) (QueueEvent.releases id) (h ++ [e]) → r'.status ≠ .queued) := by
  intro r' hr'
  rw [failures_snoc]
  cases hs with
  | same _ hunfailed hunclaimed =>
    rw [hunfailed]
    refine ⟨by simpa using hretries r' hr', fun hsince => ?_⟩
    rcases since_of_snoc hsince with hc | ⟨hsince, -⟩
    · exact absurd hc hunclaimed
    · exact hheld r' hr' hsince
  | create r taskId payload now hop hreply hnew hfresh =>
    cases hr'
    obtain ⟨hzero, hno⟩ := hfuture (by omega)
    refine ⟨by simp [hop, QueueOp.fails, hzero, hfresh.2], fun hsince => ?_⟩
    rcases since_of_snoc hsince with hc | ⟨hsince, -⟩
    · simp [QueueEvent.claims, hreply, claimedIds] at hc
    · exact absurd hsince hno
  | claim r limit now hop _ _ =>
    cases hr'
    refine ⟨by simp [hop, QueueOp.fails, hretries r rfl, Queue.claimRow], fun _ => ?_⟩
    simp [Queue.claimRow]
  | upload r now hop _ _ =>
    cases hr'
    refine ⟨by simp [hop, QueueOp.fails, hretries r rfl, Queue.uploadRow], fun _ => ?_⟩
    simp [Queue.uploadRow]
  | fail r reason maxRetries now hop hreply _ =>
    cases hr'
    refine ⟨by simp [hop, hreply, QueueOp.fails, hretries r rfl, Queue.failRow], fun hsince => ?_⟩
    rcases since_of_snoc hsince with hc | ⟨-, hrel⟩
    · simp [QueueEvent.claims, hreply, claimedIds] at hc
    · exact absurd ⟨⟨_, hreply⟩, Or.inl ⟨reason, maxRetries, now, hop⟩⟩ hrel
  | drop r reason now hop _ _ =>
    cases hr'
    refine ⟨by simp [hop, QueueOp.fails, hretries r rfl, Queue.dropRow], fun _ => ?_⟩
    simp [Queue.dropRow]
  | release r hop hreply hunclaimed _ =>
    cases hr'
    refine ⟨?_, fun hsince => ?_⟩
    · rcases hop with ⟨ids, hop, -⟩ | hop <;> simp [hop, QueueOp.fails, hretries r rfl, Queue.requeueRow]
    · rcases since_of_snoc hsince with hc | ⟨-, hrel⟩
      · exact absurd hc hunclaimed
      · refine absurd ⟨hreply, Or.inr ?_⟩ hrel
        rcases hop with ⟨ids, hop, hin⟩ | hop
        · exact Or.inl ⟨ids, hop, hin⟩
        · exact Or.inr hop
  | prune r cutoff _ _ _ => cases hr'

theorem StepRow.future {cfg : QueueConfig} {q : Queue} {op : QueueOp} {reply : Except QueueError Reply} {id : ℤ}
    {before after : Option Row} (hs : StepRow cfg q op reply id before after) (hbefore : before = none)
    (hafter : after = none) : op.fails id reply = false ∧ id ∉ claimedIds reply := by
  cases hs with
  | same _ hunfailed hunclaimed => exact ⟨hunfailed, hunclaimed⟩
  | create => cases hafter
  | claim => cases hbefore
  | upload => cases hbefore
  | fail => cases hbefore
  | drop => cases hbefore
  | release => cases hbefore
  | prune => cases hbefore

theorem perform_recorded {sha256 : Bytes → Bytes} (cfg : QueueConfig) (h : List QueueEvent) (q : Queue)
    (c : QueueCall) (hr : Recorded sha256 h q) :
    Recorded sha256 (h ++ [(c.perform sha256 cfg q).2]) (c.perform sha256 cfg q).1 := by
  have hinv := perform_inv cfg hr.inv c
  have hstep : ∀ id, StepRow cfg q (c.perform sha256 cfg q).2.op (c.perform sha256 cfg q).2.reply id
      (q.row id) ((c.perform sha256 cfg q).1.row id) := by
    intro id
    rw [perform_op]
    exact perform_stepRow cfg hr.inv c id
  have hrow : ∀ id r', (c.perform sha256 cfg q).1.row id = some r' → _ := fun id r' =>
    (hstep id).recorded (hr.retries id) (hr.held id) (hr.future id) r'
  refine ⟨hinv, fun id r' hr' => (hrow id r' hr').1, fun id r' hr' => (hrow id r' hr').2, fun id hid => ?_⟩
  have hold : q.lastId < id := lt_of_le_of_lt (perform_lastId_le cfg hr.inv c) hid
  obtain ⟨hunfailed, hunclaimed⟩ :=
    (hstep id).future (row_none_of_lt hr.inv hold) (row_none_of_lt hinv hid)
  obtain ⟨hzero, hno⟩ := hr.future id hold
  refine ⟨by rw [failures_snoc, hzero, hunfailed]; rfl, fun hsince => ?_⟩
  rcases since_of_snoc hsince with hc | ⟨hsince, -⟩
  · exact hunclaimed hc
  · exact hno hsince

theorem run_recorded (sha256 : Bytes → Bytes) (cfg : QueueConfig) (calls : List QueueCall) :
    Recorded sha256 ((queueMachine sha256 cfg).trace Queue.empty calls)
      ((queueMachine sha256 cfg).run Queue.empty calls) := by
  refine (queueMachine sha256 cfg).history_invariant ?_ (perform_recorded cfg) calls
  refine ⟨Queue.inv_empty sha256, ?_, ?_, ?_⟩
  · intro id r h
    cases h
  · intro id r h
    cases h
  · intro id _
    exact ⟨rfl, not_since_nil⟩

/-! ### Dequeue -/

/-- Only queued rows are handed out. -/
theorem StepRow.claimed {cfg : QueueConfig} {q : Queue} {op : QueueOp} {reply : Except QueueError Reply}
    {id : ℤ} {before after : Option Row} (hs : StepRow cfg q op reply id before after)
    (hc : id ∈ claimedIds reply) : ∃ r, before = some r ∧ r.status = .queued := by
  cases hs with
  | same _ _ hunclaimed => exact absurd hc hunclaimed
  | create r taskId payload now _ hreply _ _ => simp [hreply, claimedIds] at hc
  | claim r limit now _ _ hqueued => exact ⟨r, rfl, hqueued⟩
  | upload r now _ hreply _ => simp [hreply, claimedIds] at hc
  | fail r reason maxRetries now _ hreply _ => simp [hreply, claimedIds] at hc
  | drop r reason now _ hreply _ => simp [hreply, claimedIds] at hc
  | release r _ _ hunclaimed _ => exact absurd hc hunclaimed
  | prune r cutoff _ hunclaimed _ => exact absurd hc hunclaimed

/-- Two claims of a row have a release between them. -/
theorem released_between_claims {sha256 : Bytes → Bytes} (cfg : QueueConfig) (calls : List QueueCall)
    {pre mid post : List QueueEvent} {d₁ d₂ : QueueEvent} {id : ℤ}
    (h : (queueMachine sha256 cfg).trace Queue.empty calls = pre ++ d₁ :: (mid ++ d₂ :: post))
    (h₁ : d₁.claims id) (h₂ : d₂.claims id) : ∃ e ∈ mid, e.releases id := by
  by_contra hno
  have hassoc : pre ++ d₁ :: (mid ++ d₂ :: post) = (pre ++ d₁ :: mid) ++ d₂ :: post := by simp
  rw [hassoc] at h
  obtain ⟨before, c, after, -, hpre, hd₂, -⟩ := (queueMachine sha256 cfg).trace_split h
  have hrec := run_recorded sha256 cfg before
  rw [← hpre] at hrec
  have hsince : Since (QueueEvent.claims id) (QueueEvent.releases id) (pre ++ d₁ :: mid) :=
    ⟨pre, d₁, mid, rfl, h₁, fun e he hrel => hno ⟨e, he, hrel⟩⟩
  have hstep := perform_stepRow cfg hrec.inv c id
  rw [hd₂] at h₂
  obtain ⟨r, hr, hqueued⟩ := hstep.claimed h₂
  exact hrec.held id r hr hsince hqueued

theorem nextQueued_sorted {sha256 : Bytes → Bytes} {q : Queue} (hq : q.Inv sha256) (limit : ℤ) :
    ((q.nextQueued limit).map Row.id).Pairwise (· < ·) := by
  have hsort : (Table.select Queue.isQueued Queue.byId q.rows).Pairwise Queue.byId := Table.select_sorted
  have huniq : Table.Unique Row.id (Table.select Queue.isQueued Queue.byId q.rows) := Table.select_unique hq.ids
  have hle : ((q.nextQueued limit).map Row.id).Pairwise (· ≤ ·) :=
    List.pairwise_map.mpr (hsort.sublist (List.take_sublist _ _))
  have hne : ((q.nextQueued limit).map Row.id).Pairwise (· ≠ ·) :=
    huniq.sublist ((List.take_sublist _ _).map _)
  exact (hle.and hne).imp fun ⟨h1, h2⟩ => lt_of_le_of_ne h1 h2

theorem perform_dequeue {sha256 : Bytes → Bytes} (cfg : QueueConfig) {q : Queue} {limit : ℤ} {now : ℚ}
    {fault : Option QueueError} {items : List QueuedItem}
    (h : (QueueCall.perform sha256 cfg q ⟨.dequeue limit now, fault⟩).2.reply = .ok (.items items)) :
    items = (q.nextQueued limit).map Queue.itemOf := by
  unfold QueueCall.perform at h
  cases fault with
  | some e => simp at h
  | none =>
    simp only [QueueOp.exec, Queue.dequeue_eq, Prod.map_fst, Except.map, Except.ok.injEq, Reply.items.injEq] at h
    exact h.symm

theorem perform_markFailed {sha256 : Bytes → Bytes} (cfg : QueueConfig) {q : Queue} {id : ℤ} {reason : Bytes}
    {maxRetries : ℤ} {now : ℚ} {fault : Option QueueError}
    (h : (QueueCall.perform sha256 cfg q ⟨.markFailed id reason maxRetries now, fault⟩).2.reply = .ok .done) :
    ∃ r, q.row id = some r ∧
      (QueueCall.perform sha256 cfg q ⟨.markFailed id reason maxRetries now, fault⟩).1.row id =
        some (Queue.failRow (Queue.effectiveMaxRetries cfg maxRetries) reason now r) := by
  unfold QueueCall.perform at h ⊢
  cases fault with
  | some e => simp at h
  | none =>
    rcases q.markFailed_cases cfg id reason maxRetries now with ⟨e, he⟩ | ⟨r, hr, -, he⟩
    · simp [QueueOp.exec, he, Except.map] at h
    · refine ⟨r, hr, ?_⟩
      simp only [QueueOp.exec, he, Prod.map_snd, id_eq]
      exact q.row_set_self (Queue.keeps_failRow _ reason now) hr

/-- The lifecycle of the rows over any sequence of calls on an initially empty
queue. -/
theorem offline_queue_lifecycle (sha256 : Bytes → Bytes) (cfg : QueueConfig) (calls : List QueueCall) :
    let m := queueMachine sha256 cfg
    let q := m.run Queue.empty calls
    (∀ r ∈ q.rows, ∀ s ∈ q.rows, r.taskId = s.taskId → r.payload = s.payload → r = s) ∧
    (∀ r ∈ q.rows, ∀ later,
      (r.status = .uploaded → r ∈ (m.run q later).rows ∨
        ((∀ s ∈ (m.run q later).rows, s.id ≠ r.id) ∧ ∃ e ∈ m.trace q later, ∃ cutoff, e.op = .prune cutoff)) ∧
      (r.status = .dropped → r ∈ (m.run q later).rows)) ∧
    (∀ r ∈ q.rows, r.retryCount = failures (m.trace Queue.empty calls) r.id) ∧
    (∀ id reason maxRetries now fault,
      (m.step q ⟨.markFailed id reason maxRetries now, fault⟩).2.reply = .ok .done →
      ∃ r, (m.step q ⟨.markFailed id reason maxRetries now, fault⟩).1.row id = some r ∧
        (r.status = .queued ↔ (r.retryCount : ℤ) < Queue.effectiveMaxRetries cfg maxRetries)) ∧
    (∀ c e, (m.step q c).2.reply = .error e → (m.step q c).1 = q) ∧
    (∀ pre d₁ mid d₂ post id, m.trace Queue.empty calls = pre ++ d₁ :: (mid ++ d₂ :: post) →
      d₁.claims id → d₂.claims id → ∃ e ∈ mid, e.releases id) ∧
    (∀ limit now fault items, (m.step q ⟨.dequeue limit now, fault⟩).2.reply = .ok (.items items) →
      (items.map QueuedItem.id).Pairwise (· < ·) ∧
      items.length = min (Queue.dequeueLimit limit) (q.rows.countP Queue.isQueued) ∧
      (∀ item ∈ items, ∃ r ∈ q.rows, r.status = .queued ∧ item = Queue.itemOf r) ∧
      ∀ s ∈ q.rows, s.status = .queued → s.id ∉ items.map QueuedItem.id → ∀ item ∈ items, item.id < s.id) := by
  intro m q
  have hrec : Recorded sha256 (m.trace Queue.empty calls) q := run_recorded sha256 cfg calls
  have hinv := hrec.inv
  refine ⟨?_, ?_, ?_, ?_, ?_, ?_, ?_⟩
  · intro r hr s hs htask hpayload
    have hkey : (r.taskId, r.sha256) = (s.taskId, s.sha256) := by
      rw [hinv.digest r hr, hinv.digest s hs, htask, hpayload]
    have hfind := Table.find_of_mem hinv.results hr
    rw [hkey, Table.find_of_mem hinv.results hs] at hfind
    exact (Option.some.inj hfind).symm
  · intro r hr later
    have hrow := Queue.row_of_mem hinv hr
    refine ⟨fun hup => ?_, fun hd => ?_⟩
    · rcases run_uploaded cfg hinv later hrow hup with hafter | ⟨hafter, hprune⟩
      · exact Or.inl (Queue.row_mem hafter).1
      · exact Or.inr ⟨Table.find_none.mp hafter, hprune⟩
    · exact (Queue.row_mem (run_dropped cfg hinv later hrow hd)).1
  · intro r hr
    exact (hrec.retries r.id r (Queue.row_of_mem hinv hr)).symm
  · intro id reason maxRetries now fault hok
    obtain ⟨r, -, hafter⟩ := perform_markFailed cfg hok
    refine ⟨_, hafter, ?_⟩
    simp only [Queue.failRow]
    split_ifs with hlimit <;> simp <;> omega
  · intro c e he
    exact perform_error cfg hinv he
  · intro pre d₁ mid d₂ post id htrace h₁ h₂
    exact released_between_claims cfg calls htrace h₁ h₂
  · intro limit now fault items hok
    have hitems := perform_dequeue cfg hok
    subst hitems
    have hids : ((q.nextQueued limit).map Queue.itemOf).map QueuedItem.id = (q.nextQueued limit).map Row.id := by
      rw [List.map_map]
      rfl
    refine ⟨?_, ?_, ?_, ?_⟩
    · rw [hids]
      exact nextQueued_sorted hinv limit
    · rw [List.length_map]
      exact Table.select_take_length _
    · intro item hitem
      obtain ⟨r, hr, rfl⟩ := List.mem_map.mp hitem
      exact ⟨r, (Queue.mem_nextQueued hr).1, (Queue.mem_nextQueued hr).2, rfl⟩
    · intro s hs hqueued hnot item hitem
      obtain ⟨r, hr, rfl⟩ := List.mem_map.mp hitem
      rw [hids] at hnot
      have hout : s ∉ q.nextQueued limit := fun hin => hnot (List.mem_map_of_mem hin)
      have hle : Queue.byId r s := Table.select_take_before hr hs (by simp [Queue.isQueued, hqueued]) hout
      refine lt_of_le_of_ne hle fun he => hnot ?_
      have he' : r.id = s.id := he
      rw [← he']
      exact List.mem_map_of_mem hr

end AgentWorkflow.VmAgent
