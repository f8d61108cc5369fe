import AgentWorkflow.VmAgent.ReplaySafety

/-!
# No claimed row is stranded

After a startup reclaim, and as long as a failing queue call has no effect, the
rows that are uploading are those the recovery fields name. The rows of a batch
that were not sent keep their retry count until they are queued again.
-/

namespace AgentWorkflow.VmAgent
open AgentWorkflow.Lib

/-! ### The unsent rows of the last batch -/

def owe (items : List QueuedItem) : ReplayEvent → List QueuedItem
  | .call _ (.ok (.items claimed)) _ _ => claimed
  | .send id _ _ _ => items.filter fun item => decide (item.id ≠ id)
  | _ => items

/-- The items of the last claimed batch for which `Send` was not called since. -/
def owedItems (h : List ReplayEvent) : List QueuedItem := h.foldl owe []

theorem owedItems_snoc (h : List ReplayEvent) (e : ReplayEvent) : owedItems (h ++ [e]) = owe (owedItems h) e := by
  simp [owedItems]

/-- What the log claims of the replayer at the end of a tick and of a recovery. -/
def Recoverable (h : List ReplayEvent) : ReplayEvent → Prop
  | .ticked r =>
    Table.Unique Row.id r.queue.rows ∧
    (∀ id x, r.queue.row id = some x → x.status = .uploading →
      r.pendingTerminal.map PendingTerminal.id = some id ∨ id ∈ r.pendingRequeue) ∧
    ∀ item ∈ owedItems h, ∃ x, r.queue.row item.id = some x ∧ x.retryCount = item.retryCount ∧
      (x.status = .queued ∨ (x.status = .uploading ∧ item.id ∈ r.pendingRequeue))
  | .recovered r =>
    Table.Unique Row.id r.queue.rows ∧
    (∀ id x, r.queue.row id = some x → x.status ≠ .uploading) ∧
    ∀ item ∈ owedItems h, ∃ x, r.queue.row item.id = some x ∧ x.retryCount = item.retryCount ∧ x.status = .queued
  | .call _ _ _ _ | .send _ _ _ _ => True

def World.forget (w : World) : World := { w with log := [] }

def Accounted (h : List ReplayEvent) : Prop := Everywhere Recoverable h

/-! ### The invariant -/

/-- `terminal` is the row whose terminal write is due and `requeue` the rows to
be put back; no other row is uploading. -/
structure Tidy (sha256 : Bytes → Bytes) (terminal : Option ℤ) (requeue : List ℤ) (w : World) : Prop where
  inv : w.replayer.queue.Inv sha256
  accounted : Accounted w.log
  uploading : ∀ id r, w.replayer.queue.row id = some r → r.status = .uploading →
    terminal = some id ∨ id ∈ requeue
  owed : ∀ item ∈ owedItems w.log, terminal ≠ some item.id ∧
    ∃ r, w.replayer.queue.row item.id = some r ∧ r.retryCount = item.retryCount ∧
      (r.status = .queued ∨ (r.status = .uploading ∧ item.id ∈ requeue))

section Steps
variable {sha256 : Bytes → Bytes} {qcfg : QueueConfig} {terminal : Option ℤ} {requeue : List ℤ} {w : World}

theorem Tidy.of_eq {w' : World} (hw : Tidy sha256 terminal requeue w)
    (hq : w'.replayer.queue = w.replayer.queue) (hl : w'.log = w.log) : Tidy sha256 terminal requeue w' where
  inv := hq ▸ hw.inv
  accounted := hl ▸ hw.accounted
  uploading := by
    rw [hq]
    exact hw.uploading
  owed := by
    rw [hq, hl]
    exact hw.owed

theorem owe_call {op : QueueOp} {reply : Except QueueError Reply} {before after : Queue} (items : List QueuedItem)
    (h : ∀ claimed, reply ≠ .ok (.items claimed)) : owe items (.call op reply before after) = items := by
  unfold owe
  split
  next claimed _ _ heq =>
    cases heq
    exact absurd rfl (h claimed)
  next heq => cases heq
  next => rfl

/-- A call that hands out nothing. -/
theorem Tidy.record (hw : Tidy sha256 terminal requeue w) {op : QueueOp} {reply : Except QueueError Reply}
    (hreply : ∀ claimed, reply ≠ .ok (.items claimed)) {q' : Queue} (hinv : q'.Inv sha256)
    {terminal' : Option ℤ} {requeue' : List ℤ}
    (huploading : ∀ id r, q'.row id = some r → r.status = .uploading → terminal' = some id ∨ id ∈ requeue')
    (howed : ∀ item ∈ owedItems w.log, terminal' ≠ some item.id ∧
      ∃ r, q'.row item.id = some r ∧ r.retryCount = item.retryCount ∧
        (r.status = .queued ∨ (r.status = .uploading ∧ item.id ∈ requeue'))) :
    Tidy sha256 terminal' requeue' ((w.setQueue q').record (.call op reply w.replayer.queue q')) where
  inv := hinv
  accounted := Everywhere.snoc hw.accounted trivial
  uploading := huploading
  owed := by
    simp only [World.record, World.setQueue, owedItems_snoc, owe_call _ hreply]
    exact howed

/-- A call that failed without effect. -/
theorem Tidy.failed (hw : Tidy sha256 terminal requeue w) (op : QueueOp) (e : QueueError) :
    Tidy sha256 terminal requeue (w.record (.call op (.error e) w.replayer.queue w.replayer.queue)) :=
  hw.record (by simp) hw.inv hw.uploading hw.owed

/-- Without ambiguous failures, an error means that nothing changed. -/
theorem Tidy.endCall_error (hw : Tidy sha256 terminal requeue w) {op : QueueOp} {fault : Fault}
    (hfault : ∀ e, fault ≠ .applied e) {e : QueueError} (h : (w.endCall sha256 qcfg op fault).1 = .error e) :
    Tidy sha256 terminal requeue (w.endCall sha256 qcfg op fault).2 := by
  rcases @endCall_cases sha256 qcfg w op fault with ⟨hreply, -, hafter⟩ | ⟨e', -, hafter⟩ | ⟨e', happ, -⟩
  · rw [hreply] at h
    rw [hafter, exec_error hw.inv h, h]
    exact hw.failed op e
  · rw [hafter]
    exact hw.failed op e'
  · exact absurd happ (hfault e')

theorem endCall_ok_eq {op : QueueOp} {fault : Fault} {x : Reply} (h : (w.endCall sha256 qcfg op fault).1 = .ok x) :
    (w.endCall sha256 qcfg op fault).2 = (w.setQueue (op.exec sha256 qcfg w.replayer.queue).2).record
      (.call op (.ok x) w.replayer.queue (op.exec sha256 qcfg w.replayer.queue).2) := by
  rcases @endCall_cases sha256 qcfg w op fault with ⟨hreply, -, hafter⟩ | ⟨e', -, hafter⟩ | ⟨e', -, hafter⟩
  · rw [hafter, ← hreply, h]
  · rw [hafter] at h
    cases h
  · rw [hafter] at h
    cases h

/-- The write of the row in hand took effect. -/
theorem Tidy.written {i : ℤ} (hw : Tidy sha256 (some i) requeue w) {op : QueueOp} (ht : op.target = some i)
    {x : Reply} (hx : ∀ claimed, x ≠ .items claimed)
    (hrow : ∀ r, (op.exec sha256 qcfg w.replayer.queue).2.row i = some r → r.status ≠ .uploading) :
    Tidy sha256 none requeue ((w.setQueue (op.exec sha256 qcfg w.replayer.queue).2).record
      (.call op (.ok x) w.replayer.queue (op.exec sha256 qcfg w.replayer.queue).2)) := by
  have hsame : ∀ id, id ≠ i → (op.exec sha256 qcfg w.replayer.queue).2.row id = w.replayer.queue.row id := by
    intro id hid
    have hs : StepRow qcfg _ _ _ id _ _ := stepRow hw.inv op id
    exact hs.of_target ht hid
  refine hw.record (by simpa using hx) (exec_inv qcfg hw.inv op) ?_ ?_
  · intro id r hr hup
    right
    have hid : id ≠ i := by
      rintro rfl
      exact hrow r hr hup
    rw [hsame id hid] at hr
    rcases hw.uploading id r hr hup with h | h
    · exact absurd (Option.some.inj h).symm hid
    · exact h
  · intro item hitem
    obtain ⟨hne, r, hr, hrest⟩ := hw.owed item hitem
    have hid : item.id ≠ i := fun h => hne (by rw [h])
    exact ⟨by simp, r, (hsame item.id hid).trans hr, hrest⟩

/-- The rows to be put back were put back. -/
theorem Tidy.requeued {ids : List ℤ} (hw : Tidy sha256 none ids w) {x : Reply}
    (hok : ((QueueOp.requeueUploading ids).exec sha256 qcfg w.replayer.queue).1 = .ok x) :
    Tidy sha256 none [] ((w.setQueue ((QueueOp.requeueUploading ids).exec sha256 qcfg w.replayer.queue).2).record
      (.call (.requeueUploading ids) (.ok x) w.replayer.queue
        ((QueueOp.requeueUploading ids).exec sha256 qcfg w.replayer.queue).2)) := by
  have hinv := exec_inv qcfg hw.inv (.requeueUploading ids)
  rcases Queue.requeueUploading_cases ids hw.inv.ids with ⟨e, h⟩ | ⟨-, h⟩
  · simp [QueueOp.exec, h, Except.map] at hok
  have hx : x = .done := by
    simp only [QueueOp.exec, h, Prod.map_fst, Except.map, Except.ok.injEq] at hok
    exact hok.symm
  have hrow : ∀ id, ((QueueOp.requeueUploading ids).exec sha256 qcfg w.replayer.queue).2.row id =
      (w.replayer.queue.row id).map fun r => if Queue.requeues ids [] r then Queue.requeueRow r else r := by
    intro id
    simp only [QueueOp.exec, h, Prod.map_snd, id_eq]
    exact w.replayer.queue.row_rewrite (Queue.keeps_requeueRow.guard _).id id
  refine hw.record (by simp [hx]) hinv ?_ ?_
  · intro id r' hr' hup
    rw [hrow] at hr'
    obtain ⟨r, hr, rfl⟩ := Option.map_eq_some_iff.mp hr'
    split_ifs at hup with hreq
    · cases hup
    · rcases hw.uploading id r hr hup with h | h
      · cases h
      · exact absurd (by simp [Queue.requeues, Queue.isUploading, hup, (Queue.row_mem hr).2, h]) hreq
  · intro item hitem
    obtain ⟨-, r, hr, hretry, hst⟩ := hw.owed item hitem
    refine ⟨by simp, if Queue.requeues ids [] r then Queue.requeueRow r else r, by rw [hrow, hr]; rfl, ?_, ?_⟩
    · split_ifs
      · exact hretry
      · exact hretry
    · left
      rcases hst with hst | ⟨hst, hin⟩
      · split_ifs
        · rfl
        · exact hst
      · rw [if_pos]
        · rfl
        · simp [Queue.requeues, Queue.isUploading, hst, (Queue.row_mem hr).2, hin]

/-- A batch was claimed: its items are owed. -/
theorem Tidy.claimed (hw : Tidy sha256 none [] w) {limit : ℤ} {now : ℚ} {items : List QueuedItem}
    (hok : ((QueueOp.dequeue limit now).exec sha256 qcfg w.replayer.queue).1 = .ok (.items items)) :
    Tidy sha256 none (items.map QueuedItem.id)
      ((w.setQueue ((QueueOp.dequeue limit now).exec sha256 qcfg w.replayer.queue).2).record
        (.call (.dequeue limit now) (.ok (.items items)) w.replayer.queue
          ((QueueOp.dequeue limit now).exec sha256 qcfg w.replayer.queue).2)) := by
  obtain ⟨-, hclaimed, hother⟩ := dequeue_items hw.inv hok
  refine ⟨exec_inv qcfg hw.inv _, Everywhere.snoc hw.accounted trivial, ?_, ?_⟩
  · intro id r hr hup
    right
    by_contra hnot
    have hr' : ((QueueOp.dequeue limit now).exec sha256 qcfg w.replayer.queue).2.row id = some r := hr
    rw [hother id hnot] at hr'
    rcases hw.uploading id r hr' hup with h | h
    · cases h
    · cases h
  · have howed : owedItems (w.log ++ [.call (.dequeue limit now) (.ok (.items items)) w.replayer.queue
        ((QueueOp.dequeue limit now).exec sha256 qcfg w.replayer.queue).2]) = items := by
      rw [owedItems_snoc]
      rfl
    intro item hitem
    have hitem' : item ∈ items := howed ▸ hitem
    obtain ⟨r, -, -, hretry, hafter⟩ := hclaimed item hitem'
    exact ⟨by simp, _, hafter, hretry.symm, Or.inr ⟨rfl, List.mem_map_of_mem hitem'⟩⟩

/-- A call under which no row changes but by being created or deleted. -/
theorem Tidy.quiet (hw : Tidy sha256 terminal requeue w) {op : QueueOp} {reply : Except QueueError Reply}
    (hreply : ∀ claimed, reply ≠ .ok (.items claimed))
    (hrow : ∀ id, (op.exec sha256 qcfg w.replayer.queue).2.row id = w.replayer.queue.row id ∨
      (w.replayer.queue.row id = none ∧
        ∃ r, (op.exec sha256 qcfg w.replayer.queue).2.row id = some r ∧ r.status = .queued) ∨
      ((op.exec sha256 qcfg w.replayer.queue).2.row id = none ∧
        ∃ r, w.replayer.queue.row id = some r ∧ r.status = .uploaded)) :
    Tidy sha256 terminal requeue ((w.setQueue (op.exec sha256 qcfg w.replayer.queue).2).record
      (.call op reply w.replayer.queue (op.exec sha256 qcfg w.replayer.queue).2)) := by
  refine hw.record hreply (exec_inv qcfg hw.inv op) ?_ ?_
  · intro id r hr hup
    rcases hrow id with h | ⟨-, s, hs, hst⟩ | ⟨h, -⟩
    · exact hw.uploading id r (h.symm.trans hr) hup
    · rw [hr] at hs
      cases hs
      rw [hup] at hst
      cases hst
    · rw [h] at hr
      cases hr
  · intro item hitem
    obtain ⟨hne, r, hr, hretry, hst⟩ := hw.owed item hitem
    rcases hrow item.id with h | ⟨h, -⟩ | ⟨-, s, hs, hup⟩
    · exact ⟨hne, r, h.trans hr, hretry, hst⟩
    · rw [hr] at h
      cases h
    · rw [hr] at hs
      cases hs
      rcases hst with hst | ⟨hst, -⟩ <;> rw [hst] at hup <;> cases hup

theorem Tidy.enqueued (hw : Tidy sha256 terminal requeue w) (x : Bytes × Bytes × ℚ) :
    Tidy sha256 terminal requeue (w.enqueueOther sha256 qcfg x) := by
  refine hw.quiet ?_ ?_
  · intro claimed
    rcases w.replayer.queue.enqueue_cases sha256 x.1 x.2.1 x.2.2 with ⟨e, h⟩ | ⟨r, -, -, -, h⟩ | ⟨-, h⟩ <;>
      simp [QueueOp.exec, h, Except.map]
  · intro id
    have hs : StepRow qcfg _ _ _ id _ _ := stepRow hw.inv (.enqueue x.1 x.2.1 x.2.2) id
    rcases hs.of_enqueue with h | ⟨hnone, -, r, hr, hst⟩
    · exact Or.inl h
    · exact Or.inr (Or.inl ⟨hnone, r, hr, hst⟩)

theorem Tidy.stable : Stable sha256 qcfg (Tidy sha256 terminal requeue) where
  enqueue := fun _ x hw => hw.enqueued x
  next := fun _ _ hw => hw.of_eq rfl rfl

theorem Tidy.pruned (hw : Tidy sha256 terminal requeue w) (cutoff : ℚ) (reply : Except QueueError Reply)
    (hreply : ∀ claimed, reply ≠ .ok (.items claimed)) :
    Tidy sha256 terminal requeue ((w.setQueue ((QueueOp.prune cutoff).exec sha256 qcfg w.replayer.queue).2).record
      (.call (.prune cutoff) reply w.replayer.queue ((QueueOp.prune cutoff).exec sha256 qcfg w.replayer.queue).2)) := by
  refine hw.quiet hreply ?_
  intro id
  have hrow : ((QueueOp.prune cutoff).exec sha256 qcfg w.replayer.queue).2.row id =
      (w.replayer.queue.row id).filter fun r => !Queue.isPrunable cutoff r :=
    Table.find_filter hw.inv.ids id
  rw [hrow]
  cases hr : w.replayer.queue.row id with
  | none => exact Or.inl rfl
  | some r =>
    by_cases hp : Queue.isPrunable cutoff r = true
    · refine Or.inr (Or.inr ⟨by simp [hp], r, rfl, ?_⟩)
      simp only [Queue.isPrunable, Bool.and_eq_true, decide_eq_true_eq] at hp
      exact hp.1
    · exact Or.inl (by simp [hp])

theorem reclaim_row (q : Queue) (id : ℤ) :
    (QueueOp.reclaimUploading.exec sha256 qcfg q).2.row id =
      (q.row id).map fun r => if Queue.isUploading r then Queue.requeueRow r else r :=
  q.row_rewrite (Queue.keeps_requeueRow.guard _).id id

theorem reclaim_not_uploading (q : Queue) {id : ℤ} {r : Row}
    (hr : (QueueOp.reclaimUploading.exec sha256 qcfg q).2.row id = some r) : r.status ≠ .uploading := by
  rw [reclaim_row] at hr
  obtain ⟨s, -, rfl⟩ := Option.map_eq_some_iff.mp hr
  split_ifs with hup
  · simp [Queue.requeueRow]
  · simpa [Queue.isUploading] using hup

theorem Tidy.reclaimed (hw : Tidy sha256 none [] w) (reply : Except QueueError Reply)
    (hreply : ∀ claimed, reply ≠ .ok (.items claimed)) :
    Tidy sha256 none [] ((w.setQueue (QueueOp.reclaimUploading.exec sha256 qcfg w.replayer.queue).2).record
      (.call .reclaimUploading reply w.replayer.queue
        (QueueOp.reclaimUploading.exec sha256 qcfg w.replayer.queue).2)) := by
  refine hw.quiet hreply ?_
  intro id
  left
  rw [reclaim_row]
  cases hr : w.replayer.queue.row id with
  | none => rfl
  | some r =>
    rw [Option.map_some, if_neg]
    intro hup
    rcases hw.uploading id r hr (of_decide_eq_true hup) with h | h <;> cases h

/-- The first of the rows to come is sent: from now on it is the row in hand. -/
theorem Tidy.sent {item : QueuedItem} {rest : List QueuedItem}
    (hw : Tidy sha256 none ((item :: rest).map QueuedItem.id) w) (payload : Bytes) (o : SendOutcome) :
    Tidy sha256 (some item.id) (rest.map QueuedItem.id) (w.record (.send item.id item.taskId payload o)) where
  inv := hw.inv
  accounted := Everywhere.snoc hw.accounted trivial
  uploading := by
    intro id r hr hup
    rcases hw.uploading id r hr hup with h | h
    · cases h
    · rcases List.mem_cons.mp h with rfl | h
      · exact Or.inl rfl
      · exact Or.inr h
  owed := by
    have hlog : (w.record (.send item.id item.taskId payload o)).log =
        w.log ++ [.send item.id item.taskId payload o] := rfl
    rw [hlog, owedItems_snoc]
    intro other hother
    obtain ⟨hmem, hne⟩ := List.mem_filter.mp hother
    have hne' : other.id ≠ item.id := of_decide_eq_true hne
    obtain ⟨-, r, hr, hretry, hst⟩ := hw.owed other hmem
    refine ⟨fun h => hne' (Option.some.inj h).symm, r, hr, hretry, ?_⟩
    rcases hst with hst | ⟨hst, hin⟩
    · exact Or.inl hst
    · rcases List.mem_cons.mp hin with h | h
      · exact absurd h hne'
      · exact Or.inr ⟨hst, h⟩

/-- The row in hand may be put back with the others. -/
theorem Tidy.putBack {i : ℤ} (hw : Tidy sha256 (some i) requeue w) : Tidy sha256 none (i :: requeue) w where
  inv := hw.inv
  accounted := hw.accounted
  uploading := by
    intro id r hr hup
    right
    rcases hw.uploading id r hr hup with h | h
    · rw [Option.some.inj h]
      exact List.mem_cons_self ..
    · exact List.mem_cons_of_mem _ h
  owed := by
    intro item hitem
    obtain ⟨-, r, hr, hretry, hst⟩ := hw.owed item hitem
    refine ⟨by simp, r, hr, hretry, ?_⟩
    rcases hst with hst | ⟨hst, hin⟩
    · exact Or.inl hst
    · exact Or.inr ⟨hst, List.mem_cons_of_mem _ hin⟩

end Steps

/-! ### The program -/

namespace Recovery

/-- No queue call fails after it took effect. -/
def NoEffect (env : ℕ → Choice) : Prop := ∀ n e, (env n).fault ≠ .applied e

/-- The invariant with the recovery fields at given values. -/
structure Keeping (sha256 : Bytes → Bytes) (terminal : Option ℤ) (requeue : List ℤ)
    (pending : Option PendingTerminal) (back : List ℤ) (w : World) : Prop where
  tidy : Tidy sha256 terminal requeue w
  pending : w.replayer.pendingTerminal = pending
  back : w.replayer.pendingRequeue = back

/-- What is due is what the recovery fields name. -/
def Settled (sha256 : Bytes → Bytes) (w : World) : Prop :=
  Tidy sha256 (w.replayer.pendingTerminal.map PendingTerminal.id) w.replayer.pendingRequeue w

/-- Nothing is due. -/
def Clear (sha256 : Bytes → Bytes) (w : World) : Prop := Keeping sha256 none [] none [] w

variable {sha256 : Bytes → Bytes} {qcfg : QueueConfig} {cfg : ReplayConfig} {env : ℕ → Choice}
  {decorateResume : Bytes → Bytes} {terminal : Option ℤ} {requeue back : List ℤ}
  {pending : Option PendingTerminal}

theorem Clear.settled {w : World} (hw : Clear sha256 w) : Settled sha256 w := by
  unfold Settled
  rw [hw.pending, hw.back]
  exact hw.tidy

theorem Keeping.stable : Stable sha256 qcfg (Keeping sha256 terminal requeue pending back) where
  enqueue := fun _ x hw => ⟨hw.tidy.enqueued x, hw.pending, hw.back⟩
  next := fun _ _ hw => ⟨hw.tidy.of_eq rfl rfl, hw.pending, hw.back⟩

theorem Settled.stable : Stable sha256 qcfg (Settled sha256) where
  enqueue := fun _ x hw => hw.enqueued x
  next := fun _ _ hw => hw.of_eq rfl rfl

/-- A call under faults without effect: an error keeps the assertion, and only
the successful end is left to show. -/
theorem triple_callKeeping (henv : NoEffect env) {op : ℚ → QueueOp} {Q : Reply → World → Prop}
    (hok : ∀ w now x, Keeping sha256 terminal requeue pending back w →
      ((op now).exec sha256 qcfg w.replayer.queue).1 = .ok x →
      Q x ((w.setQueue ((op now).exec sha256 qcfg w.replayer.queue).2).record
        (.call (op now) (.ok x) w.replayer.queue ((op now).exec sha256 qcfg w.replayer.queue).2))) :
    Triple (Keeping sha256 terminal requeue pending back) (call sha256 qcfg env op) fun reply w =>
      match reply with
      | .ok x => Q x w
      | .error _ => Keeping sha256 terminal requeue pending back w := by
  refine triple_call Keeping.stable ?_
  intro w now n hw
  cases hreply : (w.endCall sha256 qcfg (op now) (env n).fault).1 with
  | ok x =>
    show Q x _
    rw [endCall_ok_eq hreply]
    exact hok w now x hw (endCall_ok hreply).1
  | error e =>
    obtain ⟨hpending, hback⟩ := endCall_fields sha256 qcfg w (op now) (env n).fault
    exact ⟨hw.tidy.endCall_error (henv n) hreply, hpending.trans hw.pending, hback.trans hw.back⟩

theorem exec_terminal_reply {p : PendingTerminal} {now : ℚ} {q : Queue} {x : Reply}
    (h : ((terminalOp p now).exec sha256 qcfg q).1 = .ok x) (claimed : List QueuedItem) : x ≠ .items claimed := by
  rintro rfl
  unfold terminalOp at h
  cases hk : p.kind with
  | uploaded =>
    rw [hk] at h
    rcases q.markUploaded_cases p.id now with ⟨e, he⟩ | ⟨r, -, -, he⟩ | ⟨r, -, -, he⟩ <;>
      simp [QueueOp.exec, he, Except.map] at h
  | dropped =>
    rw [hk] at h
    rcases q.forceDropped_cases p.id p.reason now with ⟨e, he⟩ | ⟨r, -, -, he⟩ | ⟨r, -, -, he⟩ <;>
      simp [QueueOp.exec, he, Except.map] at h

variable (requeue pending back) in
theorem triple_applyTerminal (henv : NoEffect env) (p : PendingTerminal) :
    Triple (Keeping sha256 (some p.id) requeue pending back) (applyTerminal sha256 qcfg env p) fun reply w =>
      match reply with
      | .ok _ => Keeping sha256 none requeue pending back w
      | .error _ => Keeping sha256 (some p.id) requeue pending back w := by
  refine triple_callKeeping henv ?_
  intro w now x hw hok
  exact ⟨hw.tidy.written (terminalOp_target p now) (exec_terminal_reply hok) (terminalOp_ok p now hok),
    hw.pending, hw.back⟩

variable (pending back) in
theorem triple_requeue (henv : NoEffect env) (ids : List ℤ) :
    Triple (Keeping sha256 none ids pending back) (call sha256 qcfg env fun _ => .requeueUploading ids) fun reply w =>
      match reply with
      | .ok _ => Keeping sha256 none [] pending back w
      | .error _ => Keeping sha256 none ids pending back w := by
  refine triple_callKeeping henv ?_
  intro w now x hw hok
  exact ⟨hw.tidy.requeued hok, hw.pending, hw.back⟩

theorem triple_recoverTerminal (henv : NoEffect env) :
    Triple (Settled sha256) (recoverTerminal sha256 qcfg env) fun err w =>
      match err with
      | some _ => Settled sha256 w
      | none => ∃ ids, Keeping sha256 none ids none ids w := by
  refine Triple.get_bind fun s hs => ?_
  unfold Settled at hs
  cases hp : s.replayer.pendingTerminal with
  | none =>
    refine Triple.pure ?_
    rintro w rfl
    rw [hp] at hs
    exact ⟨_, hs, hp, rfl⟩
  | some p =>
    rw [hp] at hs
    have hcall : Triple _ (applyTerminal sha256 qcfg env p) _ :=
      triple_applyTerminal s.replayer.pendingRequeue s.replayer.pendingRequeue (some p) henv p
    refine Triple.bind (hcall.pre ?_) fun reply => ?_
    · rintro w rfl
      exact ⟨hs, hp, rfl⟩
    cases reply with
    | error e =>
      refine Triple.pure fun w hw => ?_
      show Settled sha256 w
      unfold Settled
      rw [hw.pending, hw.back]
      exact hw.tidy
    | ok x =>
      intro w hw
      exact ⟨_, hw.tidy.of_eq rfl rfl, rfl, hw.back⟩

theorem triple_recoverRequeue (henv : NoEffect env) :
    Triple (fun w => ∃ ids, Keeping sha256 none ids none ids w) (recoverRequeue sha256 qcfg env) fun err w =>
      match err with
      | some _ => Settled sha256 w
      | none => Clear sha256 w := by
  refine Triple.get_bind fun s hs => ?_
  obtain ⟨ids, hs⟩ := hs
  rw [hs.back]
  refine Triple.ite (fun hnil => ?_) fun _ => ?_
  · refine Triple.pure ?_
    rintro w rfl
    subst hnil
    exact hs
  · refine Triple.bind ((triple_requeue ids none henv ids).pre ?_) fun reply => ?_
    · rintro w rfl
      exact hs
    cases reply with
    | error e =>
      refine Triple.pure fun w hw => ?_
      show Settled sha256 w
      unfold Settled
      rw [hw.pending, hw.back]
      exact hw.tidy
    | ok x =>
      intro w hw
      exact ⟨hw.tidy.of_eq rfl rfl, hw.pending, rfl⟩

/-- A note in the log that holds. -/
theorem noted {w : World} {e : ReplayEvent} (hw : Tidy sha256 terminal requeue w) (he : Recoverable w.log e)
    (hsame : owe (owedItems w.log) e = owedItems w.log) : Tidy sha256 terminal requeue (w.record e) where
  inv := hw.inv
  accounted := Everywhere.snoc hw.accounted he
  uploading := hw.uploading
  owed := by
    simp only [World.record, owedItems_snoc, hsame]
    exact hw.owed

theorem triple_recoverPending (henv : NoEffect env) :
    Triple (Settled sha256) (recoverPending sha256 qcfg env) fun err w =>
      match err with
      | some _ => Settled sha256 w
      | none => Clear sha256 w := by
  refine Triple.bind (triple_recoverTerminal henv) fun err => ?_
  cases err with
  | some e => exact Triple.pure fun w hw => hw
  | none =>
    refine Triple.bind (triple_recoverRequeue henv) fun err => ?_
    cases err with
    | some e => exact Triple.pure fun w hw => hw
    | none =>
      intro w hw
      refine ⟨noted hw.tidy ⟨hw.tidy.inv.ids, ?_, ?_⟩ rfl, hw.pending, hw.back⟩
      · intro id r hr hup
        rcases hw.tidy.uploading id r hr hup with h | h <;> cases h
      · intro item hitem
        obtain ⟨-, r, hr, hretry, hst⟩ := hw.tidy.owed item hitem
        refine ⟨r, hr, hretry, ?_⟩
        rcases hst with hst | ⟨-, hin⟩
        · exact hst
        · cases hin

/-! ### One batch -/

theorem itemIDs_drop {items : List QueuedItem} {index : ℕ} {item : QueuedItem} {rest : List QueuedItem}
    (h : items.drop index = item :: rest) :
    itemIDs items index = item.id :: rest.map QueuedItem.id ∧
      itemIDs items (index + 1) = rest.map QueuedItem.id ∧ items.drop (index + 1) = rest := by
  have hrest : items.drop (index + 1) = rest := by
    rw [← List.drop_drop, h]
    rfl
  refine ⟨?_, ?_, hrest⟩
  · rw [itemIDs, h, List.map_cons]
  · rw [itemIDs, hrest]

theorem triple_stageRequeue (ids : List ℤ) :
    Triple (Keeping sha256 none ids none []) (stageRequeue ids) fun _ => Settled sha256 := by
  intro w hw
  show Tidy sha256 (w.replayer.pendingTerminal.map PendingTerminal.id) ids _
  rw [hw.pending]
  exact hw.tidy.of_eq rfl rfl

theorem triple_stageTerminal (p : PendingTerminal) (ids : List ℤ) :
    Triple (Keeping sha256 (some p.id) ids none []) (stageTerminal p ids) fun _ => Settled sha256 := by
  intro w hw
  exact hw.tidy.of_eq rfl rfl

theorem triple_markFailed (henv : NoEffect env) {i : ℤ} (reason : Bytes) (maxRetries : ℤ) :
    Triple (Keeping sha256 (some i) requeue pending back)
      (call sha256 qcfg env fun now => .markFailed i reason maxRetries now) fun reply w =>
        match reply with
        | .ok _ => Keeping sha256 none requeue pending back w
        | .error _ => Keeping sha256 (some i) requeue pending back w := by
  refine triple_callKeeping henv ?_
  intro w now x hw hok
  rcases w.replayer.queue.markFailed_cases qcfg i reason maxRetries now with ⟨e, h⟩ | ⟨r, hr, -, h⟩
  · simp [QueueOp.exec, h, Except.map] at hok
  have hx : x = .done := by
    simp only [QueueOp.exec, h, Prod.map_fst, Except.map, Except.ok.injEq] at hok
    exact hok.symm
  refine ⟨hw.tidy.written rfl (by simp [hx]) ?_, hw.pending, hw.back⟩
  intro r' hr'
  simp only [QueueOp.exec, h, Prod.map_snd, id_eq] at hr'
  rw [w.replayer.queue.row_set_self (Queue.keeps_failRow _ reason now) hr] at hr'
  cases hr'
  simp only [Queue.failRow]
  split_ifs <;> simp

/-- The terminal write of the row in hand, and the rest of the batch after it. -/
theorem triple_finish (henv : NoEffect env) {rest : List QueuedItem} (p : PendingTerminal) {ids : List ℤ}
    (hids : ids = rest.map QueuedItem.id) (kind : TerminalKind) (err : QueueError → TickError)
    {continue_ : Replay (Bool × Option TickError)}
    (hcontinue : Triple (Keeping sha256 none (rest.map QueuedItem.id) none []) continue_ fun _ => Settled sha256) :
    Triple (Keeping sha256 (some p.id) (rest.map QueuedItem.id) none [])
      (do
        match ← applyTerminal sha256 qcfg env p with
        | .error e =>
          stageTerminal p ids
          return (true, some (err e))
        | .ok _ =>
          modifyReplayer fun r => { r with metrics := countTerminal kind r.metrics }
          continue_) fun _ => Settled sha256 := by
  refine Triple.bind (triple_applyTerminal _ _ _ henv p) fun reply => ?_
  cases reply with
  | error e =>
    rw [hids]
    exact Triple.bind (triple_stageTerminal p _) fun _ => Triple.pure fun w hw => hw
  | ok x =>
    refine Triple.bind (Q := fun _ => Keeping sha256 none (rest.map QueuedItem.id) none []) ?_ fun _ => hcontinue
    intro w hw
    exact ⟨hw.tidy.of_eq rfl rfl, hw.pending, hw.back⟩

theorem triple_tickLoop (henv : NoEffect env) (items : List QueuedItem) (index : ℕ) (rest : List QueuedItem)
    (anyFailed : Bool) (hdrop : items.drop index = rest) :
    Triple (Keeping sha256 none (rest.map QueuedItem.id) none [])
      (tickLoop sha256 qcfg cfg env decorateResume items index rest anyFailed) fun _ => Settled sha256 := by
  induction rest generalizing index anyFailed with
  | nil =>
    refine Triple.pure ?_
    intro w hw
    exact Clear.settled hw
  | cons item rest ih =>
    obtain ⟨hids, hids', hdrop'⟩ := itemIDs_drop hdrop
    unfold tickLoop
    rw [hids]
    have hchoose : Triple (Keeping sha256 none ((item :: rest).map QueuedItem.id) none []) (choose sha256 qcfg env)
        fun _ => Keeping sha256 none ((item :: rest).map QueuedItem.id) none [] :=
      (triple_choose Keeping.stable).weaken fun _ _ h => h.1
    refine Triple.bind hchoose fun c => Triple.ite (fun _ => ?_) fun _ => ?_
    · -- the context is done
      refine Triple.bind (triple_requeue [] none henv _) fun reply => ?_
      cases reply with
      | error e => exact Triple.bind (triple_stageRequeue _) fun _ => Triple.pure fun w hw => hw
      | ok x => exact Triple.pure fun w hw => Clear.settled hw
    refine Triple.bind hchoose fun c => Triple.ite (fun _ => ?_) fun _ => ?_
    · -- the flow is paused
      refine Triple.bind (triple_requeue [] none henv _) fun reply => ?_
      cases reply with
      | error e => exact Triple.bind (triple_stageRequeue _) fun _ => Triple.pure fun w hw => hw
      | ok x => exact Triple.pure fun w hw => Clear.settled hw
    refine Triple.bind hchoose fun c => ?_
    refine Triple.bind (Q := fun _ => Keeping sha256 (some item.id) (rest.map QueuedItem.id) none []) ?_ fun _ => ?_
    · intro w hw
      exact ⟨hw.tidy.sent _ _, hw.pending, hw.back⟩
    cases ho : c.send with
    | ok => exact triple_finish henv ⟨.uploaded, item.id, []⟩ hids' _ _ (ih _ _ hdrop')
    | failed reason fatal =>
      cases fatal with
      | true => exact triple_finish henv ⟨.dropped, item.id, reason⟩ hids' _ _ (ih _ _ hdrop')
      | false =>
        refine Triple.bind (Q := fun _ => Keeping sha256 (some item.id) (rest.map QueuedItem.id) none [])
          ?_ fun _ => ?_
        · intro w hw
          exact ⟨hw.tidy.of_eq rfl rfl, hw.pending, hw.back⟩
        refine Triple.bind (triple_markFailed henv reason _) fun reply => ?_
        cases reply with
        | error e =>
          refine Triple.bind ((triple_stageRequeue _).pre ?_) fun _ => Triple.pure fun w hw => hw
          intro w hw
          exact ⟨hw.tidy.putBack, hw.pending, hw.back⟩
        | ok x =>
          refine Triple.ite (fun _ => ?_) fun _ => ih _ _ hdrop'
          refine Triple.bind (Q := fun _ => Keeping sha256 none (rest.map QueuedItem.id) none [])
            ?_ fun _ => ih _ _ hdrop'
          intro w hw
          exact ⟨hw.tidy.of_eq rfl rfl, hw.pending, hw.back⟩

/-- The rows the claim took are to be given back, should the batch end here. -/
def Claimed (sha256 : Bytes → Bytes) (x : Reply) (w : World) : Prop :=
  match x with
  | .items items => Keeping sha256 none (items.map QueuedItem.id) none [] w
  | _ => False

theorem triple_dequeue (henv : NoEffect env) (limit : ℤ) :
    Triple (Clear sha256) (call sha256 qcfg env fun now => .dequeue limit now) fun reply w =>
      match reply with
      | .ok (.items items) => Keeping sha256 none (items.map QueuedItem.id) none [] w
      | .ok _ => False
      | .error _ => Clear sha256 w := by
  refine (triple_callKeeping (Q := Claimed sha256) henv ?_).weaken ?_
  · intro w now x hw hok
    have hitems : x = .items ((w.replayer.queue.nextQueued limit).map Queue.itemOf) := by
      simp only [QueueOp.exec, Queue.dequeue_eq, Prod.map_fst, Except.map, Except.ok.injEq] at hok
      exact hok.symm
    subst hitems
    exact ⟨hw.tidy.claimed hok, hw.pending, hw.back⟩
  · intro reply w hw
    rcases reply with e | x
    · exact hw
    · cases x <;> exact hw

theorem triple_tick (henv : NoEffect env) :
    Triple (Settled sha256) (tick sha256 qcfg cfg env decorateResume) fun _ => Settled sha256 := by
  have hbody : Triple (Settled sha256) (tickBody sha256 qcfg cfg env decorateResume) fun _ => Settled sha256 := by
    refine Triple.bind (triple_recoverPending henv) fun err => ?_
    cases err with
    | some e => exact Triple.pure fun w hw => hw
    | none =>
      refine Triple.bind (triple_dequeue henv _) fun reply => ?_
      rcases reply with e | x
      · exact Triple.pure fun w hw => Clear.settled hw
      cases x with
      | items items =>
        refine Triple.ite (fun hnil => Triple.pure fun w hw => ?_) fun _ => ?_
        · subst hnil
          exact Clear.settled hw
        · exact triple_tickLoop henv items 0 items false rfl
      | id i => exact fun w hw => hw.elim
      | done => exact fun w hw => hw.elim
      | count k => exact fun w hw => hw.elim
  refine Triple.bind hbody fun out => ?_
  intro w hw
  refine noted hw ⟨hw.inv.ids, hw.uploading, fun item hitem => ?_⟩ rfl
  obtain ⟨-, r, hr, hretry, hst⟩ := hw.owed item hitem
  exact ⟨r, hr, hretry, hst⟩

/-! ### Whole runs -/

theorem triple_chooseSettled :
    Triple (Settled sha256) (choose sha256 qcfg env) fun _ => Settled sha256 :=
  (triple_choose Settled.stable).weaken fun _ _ h => h.1

theorem triple_modifySettled {f : Replayer → Replayer} (hq : ∀ r, (f r).queue = r.queue)
    (ht : ∀ r, (f r).pendingTerminal = r.pendingTerminal) (hr : ∀ r, (f r).pendingRequeue = r.pendingRequeue) :
    Triple (Settled sha256) (modifyReplayer f) fun _ => Settled sha256 := by
  intro w hw
  show Tidy sha256 ((f w.replayer).pendingTerminal.map PendingTerminal.id) (f w.replayer).pendingRequeue _
  rw [ht, hr]
  exact hw.of_eq (hq _) rfl

theorem triple_startRun (henv : NoEffect env) :
    Triple (Settled sha256) (startRun sha256 qcfg cfg env) fun _ => Settled sha256 := by
  refine Triple.bind (triple_recoverPending henv) fun err => ?_
  cases err with
  | some e =>
    refine Triple.bind (triple_modifySettled (fun _ => rfl) (fun _ => rfl) fun _ => rfl) fun _ => ?_
    exact Triple.pure fun w hw => hw
  | none =>
    have hcall : Triple (Clear sha256) (call sha256 qcfg env fun _ => .reclaimUploading)
        fun _ => Settled sha256 := by
      refine (triple_callKeeping (Q := fun _ => Clear sha256) henv ?_).weaken ?_
      · intro w now x hw hok
        have hx : x = .count w.replayer.queue.reclaimUploading.1 := by
          simp only [QueueOp.exec, Except.ok.injEq] at hok
          exact hok.symm
        exact ⟨hw.tidy.reclaimed _ (by simp [hx]), hw.pending, hw.back⟩
      · intro reply w hw
        cases reply <;> exact Clear.settled hw
    refine Triple.bind hcall fun reclaimed => Triple.bind triple_chooseSettled fun _ => ?_
    refine Triple.bind (triple_modifySettled (fun _ => rfl) (fun _ => rfl) fun _ => rfl) fun _ => ?_
    exact Triple.pure fun w hw => hw

theorem triple_pruneIfDue (henv : NoEffect env) :
    Triple (Settled sha256) (pruneIfDue sha256 qcfg cfg env) fun _ => Settled sha256 := by
  refine Triple.bind triple_chooseSettled fun c => Triple.get_bind fun s hs => ?_
  cases s.replayer.running with
  | none =>
    refine Triple.pure ?_
    rintro w rfl
    exact hs
  | some l =>
    have hsettled : ∀ w, w = s → Settled sha256 w := by
      rintro w rfl
      exact hs
    refine Triple.ite (fun _ => Triple.pre ?_ hsettled) fun _ => Triple.pure hsettled
    have hcall : Triple (Settled sha256) (call sha256 qcfg env fun cutoff => .prune cutoff)
        fun _ => Settled sha256 := by
      refine triple_call Settled.stable ?_
      intro w cutoff n hw
      rcases @endCall_cases sha256 qcfg w (.prune cutoff) (env n).fault with ⟨-, -, h⟩ | ⟨e, -, h⟩ | ⟨e, happ, -⟩
      · rw [h]
        exact Tidy.pruned hw cutoff _ (by simp [QueueOp.exec])
      · rw [h]
        exact Tidy.failed hw _ e
      · exact absurd happ (henv n e)
    refine Triple.bind hcall fun _ => Triple.bind triple_chooseSettled fun _ => ?_
    exact triple_modifySettled (fun _ => rfl) (fun _ => rfl) fun _ => rfl

theorem triple_iterate (henv : NoEffect env) :
    Triple (Settled sha256) (iterate sha256 qcfg cfg env decorateResume) fun _ => Settled sha256 := by
  have hstop : Triple (Settled sha256) stop fun _ => Settled sha256 :=
    triple_modifySettled (fun _ => rfl) (fun _ => rfl) fun _ => rfl
  have hlocals : ∀ f, Triple (Settled sha256) (setLocals f) fun _ => Settled sha256 :=
    fun f => triple_modifySettled (fun _ => rfl) (fun _ => rfl) fun _ => rfl
  refine Triple.bind triple_chooseSettled fun _ => Triple.ite (fun _ => hstop) fun _ => ?_
  refine Triple.bind (triple_modifySettled (fun _ => rfl) (fun _ => rfl) fun _ => rfl) fun _ => ?_
  refine Triple.bind (triple_recoverPending henv) fun err => ?_
  cases err with
  | some e =>
    exact Triple.bind triple_chooseSettled fun _ => Triple.ite (fun _ => hstop) fun _ => hlocals _
  | none =>
    refine Triple.pre ?_ fun w hw => Clear.settled hw
    refine Triple.bind triple_chooseSettled fun _ => Triple.ite (fun _ => hstop) fun _ => ?_
    refine Triple.bind triple_chooseSettled fun _ => Triple.ite (fun _ => hlocals _) fun _ => ?_
    refine Triple.bind triple_chooseSettled fun _ => Triple.ite (fun _ => ?_) fun _ => ?_
    · exact Triple.bind (triple_modifySettled (fun _ => rfl) (fun _ => rfl) fun _ => rfl) fun _ => hlocals _
    · refine Triple.bind (triple_tick henv) fun out => ?_
      refine Triple.bind triple_chooseSettled fun _ => Triple.ite (fun _ => hstop) fun _ => ?_
      refine Triple.ite (fun _ => ?_) fun _ => ?_
      · exact Triple.bind (hlocals _) fun _ => triple_pruneIfDue henv
      · exact Triple.bind (hlocals _) fun _ => triple_pruneIfDue henv

/-! ### The startup -/

/-- The keys of the queue stay unique, whatever fails. -/
def Sound (sha256 : Bytes → Bytes) (w : World) : Prop := w.replayer.queue.Inv sha256

theorem Sound.endCall {w : World} (hw : Sound sha256 w) (op : QueueOp) (fault : Fault) :
    Sound sha256 (w.endCall sha256 qcfg op fault).2 := by
  rcases @endCall_cases sha256 qcfg w op fault with ⟨-, -, h⟩ | ⟨e, -, h⟩ | ⟨e, -, h⟩
  · rw [h]
    exact exec_inv qcfg hw op
  · rw [h]
    exact hw
  · rw [h]
    exact exec_inv qcfg hw op

theorem Sound.stable : Stable sha256 qcfg (Sound sha256) where
  enqueue := fun _ _ hw => hw.endCall _ .none
  next := fun _ _ hw => hw

/-- A successful recovery clears both fields, whatever failed before. -/
theorem triple_recovered :
    Triple (Sound sha256) (recoverPending sha256 qcfg env) fun err w =>
      Sound sha256 w ∧ (err = none → w.replayer.pendingTerminal = none ∧ w.replayer.pendingRequeue = []) := by
  have hterminal : Triple (Sound sha256) (recoverTerminal sha256 qcfg env) fun err w =>
      Sound sha256 w ∧ (err = none → w.replayer.pendingTerminal = none) := by
    refine Triple.get_bind fun s hs => ?_
    cases hp : s.replayer.pendingTerminal with
    | none =>
      refine Triple.pure ?_
      rintro w rfl
      exact ⟨hs, fun _ => hp⟩
    | some p =>
      have hcall : Triple (Sound sha256) (applyTerminal sha256 qcfg env p) fun _ => Sound sha256 :=
        triple_call Sound.stable fun w now n hw => hw.endCall _ _
      refine Triple.bind (hcall.pre ?_) fun reply => ?_
      · rintro w rfl
        exact hs
      cases reply with
      | error e => exact Triple.pure fun w hw => ⟨hw, by simp⟩
      | ok x =>
        intro w hw
        exact ⟨hw, fun _ => rfl⟩
  have hrequeue : Triple (fun w => Sound sha256 w ∧ w.replayer.pendingTerminal = none)
      (recoverRequeue sha256 qcfg env) fun err w => Sound sha256 w ∧
        (err = none → w.replayer.pendingTerminal = none ∧ w.replayer.pendingRequeue = []) := by
    refine Triple.get_bind fun s hs => Triple.ite (fun hnil => ?_) fun _ => ?_
    · refine Triple.pure ?_
      rintro w rfl
      exact ⟨hs.1, fun _ => ⟨hs.2, hnil⟩⟩
    · have hcall : Triple (fun w => Sound sha256 w ∧ w.replayer.pendingTerminal = none)
          (call sha256 qcfg env fun _ => .requeueUploading s.replayer.pendingRequeue)
          fun _ w => Sound sha256 w ∧ w.replayer.pendingTerminal = none := by
        refine triple_call ⟨?_, ?_⟩ ?_
        · intro w x hw
          exact ⟨Sound.stable.enqueue w x hw.1, hw.2⟩
        · intro w n hw
          exact hw
        · intro w now n hw
          exact ⟨hw.1.endCall _ _, (endCall_fields sha256 qcfg w _ _).1.trans hw.2⟩
      refine Triple.bind (hcall.pre ?_) fun reply => ?_
      · rintro w rfl
        exact hs
      cases reply with
      | error e => exact Triple.pure fun w hw => ⟨hw.1, by simp⟩
      | ok x =>
        intro w hw
        exact ⟨hw.1, fun _ => ⟨hw.2, rfl⟩⟩
  refine Triple.bind hterminal fun err => ?_
  cases err with
  | some e => exact Triple.pure fun w hw => ⟨hw.1, by simp⟩
  | none =>
    refine Triple.bind (hrequeue.pre fun w hw => ⟨hw.1, hw.2 rfl⟩) fun err => ?_
    cases err with
    | some e => exact Triple.pure fun w hw => ⟨hw.1, by simp⟩
    | none =>
      intro w hw
      exact hw

/-- After a startup whose reclaim succeeded nothing is uploading and nothing is
pending. -/
structure Fresh (sha256 : Bytes → Bytes) (w : World) : Prop where
  sound : Sound sha256 w
  pending : w.replayer.pendingTerminal = none
  back : w.replayer.pendingRequeue = []
  uploading : ∀ id r, w.replayer.queue.row id = some r → r.status ≠ .uploading

theorem Fresh.stable : Stable sha256 qcfg (Fresh sha256) where
  enqueue := by
    intro w x hw
    refine ⟨Sound.stable.enqueue w x hw.sound, hw.pending, hw.back, ?_⟩
    intro id r hr hup
    have hs : StepRow qcfg _ _ _ id _ _ := stepRow hw.sound (.enqueue x.1 x.2.1 x.2.2) id
    rcases hs.of_enqueue with h | ⟨-, -, s, hr', hst⟩
    · exact hw.uploading id r (h.symm.trans hr) hup
    · rw [show ((QueueOp.enqueue x.1 x.2.1 x.2.2).exec sha256 qcfg w.replayer.queue).2.row id = some r from hr] at hr'
      cases hr'
      rw [hst] at hup
      cases hup
  next := fun _ _ hw => ⟨hw.sound, hw.pending, hw.back, hw.uploading⟩

/-- Seen from an empty log nothing is owed. -/
theorem Fresh.settled {w : World} (hw : Fresh sha256 w) : Settled sha256 w.forget := by
  unfold Settled
  refine ⟨hw.sound, everywhere_nil, ?_, ?_⟩
  · intro id r hr hup
    exact absurd hup (hw.uploading id r hr)
  · intro item hitem
    cases hitem

theorem triple_started :
    Triple (Sound sha256) (startRun sha256 qcfg cfg env) fun out w => ∀ x, out = some (.ok x) → Fresh sha256 w := by
  refine Triple.bind triple_recovered fun err => ?_
  cases err with
  | some e =>
    intro w hw x hx
    cases hx
  | none =>
    have hcall : Triple (fun w => Sound sha256 w ∧ w.replayer.pendingTerminal = none ∧ w.replayer.pendingRequeue = [])
        (call sha256 qcfg env fun _ => .reclaimUploading) fun reply w => ∀ x, reply = .ok x → Fresh sha256 w := by
      refine triple_call ⟨?_, ?_⟩ ?_
      · intro w x hw
        exact ⟨Sound.stable.enqueue w x hw.1, hw.2⟩
      · intro w n hw
        exact hw
      · intro w now n hw x hok
        obtain ⟨hpending, hback⟩ := endCall_fields sha256 qcfg w .reclaimUploading (env n).fault
        refine ⟨hw.1.endCall _ _, hpending.trans hw.2.1, hback.trans hw.2.2, ?_⟩
        intro id r hr
        rw [(endCall_ok hok).2] at hr
        exact reclaim_not_uploading _ hr
    refine Triple.bind (hcall.pre fun w hw => ⟨hw.1, hw.2 rfl⟩) fun reclaimed => ?_
    cases reclaimed with
    | error e =>
      intro w hw x hx
      cases hx
    | ok y =>
      refine Triple.bind (Q := fun _ => Fresh sha256) ?_ fun c => ?_
      · exact ((triple_choose Fresh.stable).weaken fun _ _ h => h.1).pre fun w hw => hw y rfl
      · intro w hw x _
        exact ⟨hw.sound, hw.pending, hw.back, hw.uploading⟩

theorem fresh_of_started {w started : World} (hw : Sound sha256 w) {x : Reply}
    (h : (startRun sha256 qcfg cfg env).run w = (some (.ok x), started)) : Fresh sha256 started := by
  have hpost := @triple_started sha256 qcfg cfg env w hw x
  rw [h] at hpost
  exact hpost rfl

end Recovery

def ReplayOp.env : ReplayOp → ℕ → Choice
  | .start env => env
  | .iterate env => env

open Recovery in
theorem step_settled {sha256 : Bytes → Bytes} {qcfg : QueueConfig} {cfg : ReplayConfig}
    {decorateResume : Bytes → Bytes} {w : World} (hw : Settled sha256 w) (op : ReplayOp) (hop : NoEffect op.env) :
    Settled sha256 (w.step sha256 qcfg cfg decorateResume op) := by
  have hzero : Settled sha256 w.rewind := hw.of_eq rfl rfl
  unfold World.step
  split
  · exact Recovery.triple_startRun hop _ hzero
  · exact Recovery.triple_iterate hop _ hzero
  · exact hw

/-- A `Run` whose startup reclaim succeeded, in any later sequence of
iterations and restarts whose failing queue calls have no effect; the log
starts after that startup. At the end of every tick the uploading rows are
named by the recovery fields, and a row of the last batch that was not sent is
queued or named, with its retry count; after every recovery no row is uploading
and those rows are queued. -/
theorem no_claimed_row_stranded (sha256 : Bytes → Bytes) (qcfg : QueueConfig) (cfg : ReplayConfig)
    (decorateResume : Bytes → Bytes) (calls : List QueueCall) (earlier : List ReplayOp) (env : ℕ → Choice)
    {x : Reply} {started : World} {ops : List ReplayOp}
    (hstart : (startRun sha256 qcfg (newConfig cfg) env).run
      ((replayMachine sha256 qcfg cfg decorateResume).run
        (World.new ((queueMachine sha256 qcfg).run Queue.empty calls)) earlier).rewind = (some (.ok x), started))
    (hfaults : ∀ op ∈ ops, ∀ n e, (op.env n).fault ≠ .applied e) :
    let w := (replayMachine sha256 qcfg cfg decorateResume).run started.forget ops
    (∀ pre r post, w.log = pre ++ .ticked r :: post →
      (∀ row ∈ r.queue.rows, row.status = .uploading →
        (∃ p, r.pendingTerminal = some p ∧ p.id = row.id) ∨ row.id ∈ r.pendingRequeue) ∧
      ∀ item ∈ owedItems pre, ∃ row ∈ r.queue.rows, row.id = item.id ∧ row.retryCount = item.retryCount ∧
        (row.status = .queued ∨ (row.status = .uploading ∧ row.id ∈ r.pendingRequeue))) ∧
    (∀ pre r post, w.log = pre ++ .recovered r :: post →
      (∀ row ∈ r.queue.rows, row.status ≠ .uploading) ∧
      ∀ item ∈ owedItems pre, ∃ row ∈ r.queue.rows, row.id = item.id ∧ row.retryCount = item.retryCount ∧
        row.status = .queued) := by
  intro w
  have hidle := run_idle sha256 qcfg cfg decorateResume (run_inv qcfg (Queue.inv_empty sha256) calls) earlier
  have hfresh : Recovery.Fresh sha256 started := by
    have hsound : Recovery.Sound sha256 ((replayMachine sha256 qcfg cfg decorateResume).run
        (World.new ((queueMachine sha256 qcfg).run Queue.empty calls)) earlier).rewind := hidle.inv
    exact Recovery.fresh_of_started hsound hstart
  have hsettled : Recovery.Settled sha256 w := by
    refine (replayMachine sha256 qcfg cfg decorateResume).history_invariant_of
      (P := fun _ w => Recovery.Settled sha256 w) (G := fun op => Recovery.NoEffect op.env) ?_ ?_ ops hfaults
    · exact hfresh.settled
    · intro _ t op hop ht
      exact step_settled ht op hop
  have hrow : ∀ {q : Queue}, Table.Unique Row.id q.rows → ∀ {row : Row}, row ∈ q.rows → q.row row.id = some row :=
    fun hu _ hr => Table.find_of_mem hu hr
  constructor
  · intro pre r post hlog
    obtain ⟨hu, hup, howed⟩ := hsettled.accounted pre _ post hlog
    refine ⟨fun row hr hst => ?_, fun item hitem => ?_⟩
    · rcases hup row.id row (hrow hu hr) hst with h | h
      · exact Or.inl (Option.map_eq_some_iff.mp h)
      · exact Or.inr h
    · obtain ⟨row, hr, hretry, hst⟩ := howed item hitem
      obtain ⟨hmem, hid⟩ := Queue.row_mem hr
      rw [← hid] at hst
      exact ⟨row, hmem, hid, hretry, hst⟩
  · intro pre r post hlog
    obtain ⟨hu, hup, howed⟩ := hsettled.accounted pre _ post hlog
    refine ⟨fun row hr => hup row.id row (hrow hu hr), fun item hitem => ?_⟩
    obtain ⟨row, hr, hretry, hst⟩ := howed item hitem
    obtain ⟨hmem, hid⟩ := Queue.row_mem hr
    exact ⟨row, hmem, hid, hretry, hst⟩

def sampleConfig : ReplayConfig := ⟨5, 50, 10, 60, 3600⟩

/-- Two results are on disk when `Run` starts. -/
def sampleStart : Option (Except QueueError Reply) × World :=
  (startRun id ⟨5⟩ (newConfig sampleConfig) fun _ => ⟨[], .none, 0, false, true, true, .ok⟩).run
    ((replayMachine id ⟨5⟩ sampleConfig id).run
      (World.new ((queueMachine id ⟨5⟩).run Queue.empty
        [⟨.enqueue [1] [10] 0, none⟩, ⟨.enqueue [2] [20] 0, none⟩])) []).rewind

/-- The flow is paused after the first of them was sent. -/
def sampleIteration : ReplayOp :=
  .iterate fun n => ⟨[], .none, 0, false, true, decide (n ≠ 10), .ok⟩

/-- The tick of the sample owes the second row. -/
theorem no_claimed_row_stranded_sample :
    let w := (replayMachine id ⟨5⟩ sampleConfig id).run sampleStart.2.forget [sampleIteration]
    (owedItems w.log).map QueuedItem.id = [2] ∧
    ∀ pre r post, w.log = pre ++ .ticked r :: post →
      (∀ row ∈ r.queue.rows, row.status = .uploading →
        (∃ p, r.pendingTerminal = some p ∧ p.id = row.id) ∨ row.id ∈ r.pendingRequeue) ∧
      ∀ item ∈ owedItems pre, ∃ row ∈ r.queue.rows, row.id = item.id ∧ row.retryCount = item.retryCount ∧
        (row.status = .queued ∨ (row.status = .uploading ∧ row.id ∈ r.pendingRequeue)) := by
  have hstart : sampleStart = (some (.ok (.count 0)), sampleStart.2) := Prod.ext (by decide +kernel) rfl
  have hfaults : ∀ op ∈ [sampleIteration], ∀ n e, (op.env n).fault ≠ .applied e := by
    simp [sampleIteration, ReplayOp.env]
  refine ⟨by decide +kernel, ?_⟩
  exact (no_claimed_row_stranded id ⟨5⟩ sampleConfig id
    [⟨.enqueue [1] [10] 0, none⟩, ⟨.enqueue [2] [20] 0, none⟩] []
    (fun _ => ⟨[], .none, 0, false, true, true, .ok⟩) hstart hfaults).1

end AgentWorkflow.VmAgent
