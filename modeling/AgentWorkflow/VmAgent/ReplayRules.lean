import AgentWorkflow.VmAgent.QueueLifecycle
import AgentWorkflow.VmAgent.Replay

/-!
# Rules for the replayer's primitives

An assertion that other goroutines' `Enqueue` calls keep survives every
interaction; a queue call is then described by the three ways it can end.
-/

namespace AgentWorkflow.VmAgent
open AgentWorkflow.Lib

section Rules
variable (sha256 : Bytes → Bytes) (qcfg : QueueConfig)

/-- Kept by concurrent `Enqueue` calls and by the position in the stream. -/
structure Stable (I : World → Prop) : Prop where
  enqueue : ∀ w x, I w → I (w.enqueueOther sha256 qcfg x)
  next : ∀ w n, I w → I { w with next := n }

variable {sha256 qcfg} {env : ℕ → Choice} {I : World → Prop}

theorem Stable.foldl (hI : Stable sha256 qcfg I) (xs : List (Bytes × Bytes × ℚ)) (w : World) (h : I w) :
    I (xs.foldl (World.enqueueOther sha256 qcfg) w) := by
  induction xs generalizing w with
  | nil => exact h
  | cons x xs ih => exact ih _ (hI.enqueue w x h)

theorem triple_choose (hI : Stable sha256 qcfg I) :
    Triple I (choose sha256 qcfg env) fun c w => I w ∧ ∃ n, c = env n := by
  intro w hw
  exact ⟨hI.foldl _ _ (hI.next w _ hw), w.next, rfl⟩

theorem triple_call (hI : Stable sha256 qcfg I) {op : ℚ → QueueOp} {Q : Except QueueError Reply → World → Prop}
    (hend : ∀ w now n, I w → Q (w.endCall sha256 qcfg (op now) (env n).fault).1
      (w.endCall sha256 qcfg (op now) (env n).fault).2) :
    Triple I (call sha256 qcfg env op) Q := by
  refine Triple.bind (triple_choose hI) ?_
  rintro c w ⟨hw, n, rfl⟩
  exact hend w _ n hw

variable (sha256 qcfg) in
/-- A call leaves the recovery fields alone. -/
theorem endCall_fields (w : World) (op : QueueOp) (fault : Fault) :
    (w.endCall sha256 qcfg op fault).2.replayer.pendingTerminal = w.replayer.pendingTerminal ∧
    (w.endCall sha256 qcfg op fault).2.replayer.pendingRequeue = w.replayer.pendingRequeue := by
  cases fault <;> exact ⟨rfl, rfl⟩

/-- The three ways a call ends. -/
theorem endCall_cases (w : World) (op : QueueOp) (fault : Fault) :
    ((w.endCall sha256 qcfg op fault).1 = (op.exec sha256 qcfg w.replayer.queue).1 ∧ fault = .none ∧
      (w.endCall sha256 qcfg op fault).2 = (w.setQueue (op.exec sha256 qcfg w.replayer.queue).2).record
        (.call op (op.exec sha256 qcfg w.replayer.queue).1 w.replayer.queue
          (op.exec sha256 qcfg w.replayer.queue).2)) ∨
    (∃ e, fault = .unchanged e ∧ w.endCall sha256 qcfg op fault =
      (.error e, w.record (.call op (.error e) w.replayer.queue w.replayer.queue))) ∨
    (∃ e, fault = .applied e ∧ w.endCall sha256 qcfg op fault =
      (.error e, (w.setQueue (op.exec sha256 qcfg w.replayer.queue).2).record
        (.call op (.error e) w.replayer.queue (op.exec sha256 qcfg w.replayer.queue).2))) := by
  cases fault with
  | none => exact Or.inl ⟨rfl, rfl, rfl⟩
  | unchanged e => exact Or.inr (Or.inl ⟨e, rfl, rfl⟩)
  | applied e => exact Or.inr (Or.inr ⟨e, rfl, rfl⟩)

end Rules

/-! ### Rows another call leaves alone -/

/-- The calls that write one row only. -/
def QueueOp.target : QueueOp → Option ℤ
  | .markUploaded id _ => some id
  | .markFailed id _ _ _ => some id
  | .forceDropped id _ _ => some id
  | _ => none

theorem StepRow.of_target {cfg : QueueConfig} {q : Queue} {op : QueueOp} {reply : Except QueueError Reply}
    {id i : ℤ} {before after : Option Row} (hs : StepRow cfg q op reply id before after)
    (ht : op.target = some i) (hne : id ≠ i) : after = before := by
  cases hs with
  | same => rfl
  | create r taskId payload now hop _ _ _ => simp [hop, QueueOp.target] at ht
  | claim r limit now hop _ _ => simp [hop, QueueOp.target] at ht
  | upload r now hop _ _ => exact absurd (by simpa [hop, QueueOp.target] using ht) hne
  | fail r reason maxRetries now hop _ _ => exact absurd (by simpa [hop, QueueOp.target] using ht) hne
  | drop r reason now hop _ _ => exact absurd (by simpa [hop, QueueOp.target] using ht) hne
  | release r hop _ _ _ => rcases hop with ⟨ids, hop, -⟩ | hop <;> simp [hop, QueueOp.target] at ht
  | prune r cutoff hop _ _ => simp [hop, QueueOp.target] at ht

/-- An `Enqueue` keeps every row there is; a row it adds is queued and has a new
id. -/
theorem StepRow.of_enqueue {cfg : QueueConfig} {q : Queue} {taskId payload : Bytes} {now : ℚ}
    {reply : Except QueueError Reply} {id : ℤ} {before after : Option Row}
    (hs : StepRow cfg q (.enqueue taskId payload now) reply id before after) :
    after = before ∨ (before = none ∧ id = q.lastId + 1 ∧ ∃ r, after = some r ∧ r.status = .queued) := by
  cases hs with
  | same => exact Or.inl rfl
  | create r _ _ _ _ _ hnew hfresh => exact Or.inr ⟨rfl, hnew, r, rfl, hfresh.1⟩
  | claim _ limit now hop _ _ => cases hop
  | upload _ now hop _ _ => cases hop
  | fail _ reason maxRetries now hop _ _ => cases hop
  | drop _ reason now hop _ _ => cases hop
  | release _ hop _ _ _ => rcases hop with ⟨ids, hop, -⟩ | hop <;> cases hop
  | prune _ cutoff hop _ _ => cases hop

theorem terminalOp_target (p : PendingTerminal) (now : ℚ) : (terminalOp p now).target = some p.id := by
  unfold terminalOp
  cases p.kind <;> rfl

/-- When the terminal write returns without an error, the row is terminal. -/
theorem terminalOp_ok {sha256 : Bytes → Bytes} {qcfg : QueueConfig} {q : Queue} (p : PendingTerminal) (now : ℚ)
    {x : Reply} (hok : ((terminalOp p now).exec sha256 qcfg q).1 = .ok x) :
    ∀ r, ((terminalOp p now).exec sha256 qcfg q).2.row p.id = some r → r.status ≠ .uploading := by
  intro r hr
  cases hk : p.kind with
  | uploaded =>
    simp only [terminalOp, hk] at hok hr
    rcases q.markUploaded_cases p.id now with ⟨e, h⟩ | ⟨s, hs, hst, h⟩ | ⟨s, hs, -, h⟩ <;>
      simp only [QueueOp.exec, h, Prod.map_snd, Prod.map_fst, id_eq, Except.map, reduceCtorEq] at hok hr
    · rw [hs] at hr
      cases hr
      simp [hst]
    · rw [q.row_set_self (Queue.keeps_uploadRow now) hs] at hr
      cases hr
      simp [Queue.uploadRow]
  | dropped =>
    simp only [terminalOp, hk] at hok hr
    rcases q.forceDropped_cases p.id p.reason now with ⟨e, h⟩ | ⟨s, hs, hst, h⟩ | ⟨s, hs, -, h⟩ <;>
      simp only [QueueOp.exec, h, Prod.map_snd, Prod.map_fst, id_eq, Except.map, reduceCtorEq] at hok hr
    · rw [hs] at hr
      cases hr
      simp [hst]
    · rw [q.row_set_self (Queue.keeps_dropRow p.reason now) hs] at hr
      cases hr
      simp [Queue.dropRow]

/-- A call that returns without an error had its effect. -/
theorem endCall_ok {sha256 : Bytes → Bytes} {qcfg : QueueConfig} {w : World} {op : QueueOp} {fault : Fault}
    {x : Reply} (h : (w.endCall sha256 qcfg op fault).1 = .ok x) :
    (op.exec sha256 qcfg w.replayer.queue).1 = .ok x ∧
      (w.endCall sha256 qcfg op fault).2.replayer.queue = (op.exec sha256 qcfg w.replayer.queue).2 := by
  rcases @endCall_cases sha256 qcfg w op fault with ⟨hreply, -, hw⟩ | ⟨e, -, he⟩ | ⟨e, -, he⟩
  · rw [hreply] at h
    rw [hw]
    exact ⟨h, rfl⟩
  · rw [he] at h
    cases h
  · rw [he] at h
    cases h

/-! ### Claiming a batch -/

/-- What a `Dequeue` that returns items did: the items are distinct rows that
were queued and now are uploading, and no other row changed. -/
theorem dequeue_items {sha256 : Bytes → Bytes} {qcfg : QueueConfig} {q : Queue} (hq : q.Inv sha256) {limit : ℤ}
    {now : ℚ} {items : List QueuedItem}
    (hok : ((QueueOp.dequeue limit now).exec sha256 qcfg q).1 = .ok (.items items)) :
    (items.map QueuedItem.id).Nodup ∧
    (∀ item ∈ items, ∃ r, q.row item.id = some r ∧ r.status = .queued ∧ item.retryCount = r.retryCount ∧
      ((QueueOp.dequeue limit now).exec sha256 qcfg q).2.row item.id = some (Queue.claimRow now r)) ∧
    ∀ id, id ∉ items.map QueuedItem.id →
      ((QueueOp.dequeue limit now).exec sha256 qcfg q).2.row id = q.row id := by
  simp only [QueueOp.exec, Queue.dequeue_eq, Prod.map_fst, Prod.map_snd, id_eq, Except.map, Except.ok.injEq,
    Reply.items.injEq] at hok ⊢
  subst hok
  have hids : ((q.nextQueued limit).map Queue.itemOf).map QueuedItem.id = (q.nextQueued limit).map Row.id := by
    rw [List.map_map]
    rfl
  have hrow := q.row_rewrite
    ((Queue.keeps_claimRow now).guard fun r => decide (r.id ∈ (q.nextQueued limit).map Row.id)).id
  refine ⟨?_, ?_, ?_⟩
  · rw [hids]
    exact (nextQueued_sorted hq limit).imp fun h => ne_of_lt h
  · intro item hitem
    obtain ⟨r, hr, rfl⟩ := List.mem_map.mp hitem
    obtain ⟨hmem, hqueued⟩ := Queue.mem_nextQueued hr
    have hfind : q.row (Queue.itemOf r).id = some r := Queue.row_of_mem hq hmem
    refine ⟨r, hfind, hqueued, rfl, ?_⟩
    rw [hrow, hfind, Option.map_some, if_pos (decide_eq_true (List.mem_map_of_mem hr))]
  · intro id hid
    rw [hids] at hid
    rw [hrow]
    cases hr : q.row id with
    | none => rfl
    | some r =>
      rw [← (Queue.row_mem hr).2] at hid
      rw [Option.map_some, if_neg (by simpa using hid)]

/-! ### Assertions that every interaction keeps -/

section Robust
variable (sha256 : Bytes → Bytes) (qcfg : QueueConfig)

/-- Kept by every queue call however it ends, by what changes neither the queue
nor the log, and by notes in the log. -/
structure Robust (I : World → Prop) : Prop where
  call : ∀ w op fault, I w → I (w.endCall sha256 qcfg op fault).2
  of_eq : ∀ {w w' : World}, I w → w'.replayer.queue = w.replayer.queue → w'.log = w.log → I w'
  recovered : ∀ w r, I w → I (w.record (.recovered r))
  ticked : ∀ w r, I w → I (w.record (.ticked r))

variable {sha256 qcfg} {cfg : ReplayConfig} {env : ℕ → Choice} {I : World → Prop}

theorem Robust.stable (hI : Robust sha256 qcfg I) : Stable sha256 qcfg I where
  enqueue := fun w x hw => hI.call w (.enqueue x.1 x.2.1 x.2.2) .none hw
  next := fun _ _ hw => hI.of_eq hw rfl rfl

theorem Robust.choose (hI : Robust sha256 qcfg I) : Triple I (choose sha256 qcfg env) fun _ => I :=
  (triple_choose hI.stable).weaken fun _ _ h => h.1

theorem Robust.triple_call (hI : Robust sha256 qcfg I) (op : ℚ → QueueOp) :
    Triple I (VmAgent.call sha256 qcfg env op) fun _ => I :=
  VmAgent.triple_call hI.stable fun w _ _ hw => hI.call w _ _ hw

theorem Robust.modify (hI : Robust sha256 qcfg I) {f : Replayer → Replayer} (hf : ∀ r, (f r).queue = r.queue) :
    Triple I (modifyReplayer f) fun _ => I := by
  intro w hw
  exact hI.of_eq hw (hf _) rfl

theorem Robust.recoverPending (hI : Robust sha256 qcfg I) :
    Triple I (recoverPending sha256 qcfg env) fun _ => I := by
  have hterminal : Triple I (recoverTerminal sha256 qcfg env) fun _ => I := by
    refine Triple.get_bind fun s hs => ?_
    have hpre : ∀ w, w = s → I w := by
      rintro w rfl
      exact hs
    cases s.replayer.pendingTerminal with
    | none => exact Triple.pure hpre
    | some p =>
      refine Triple.bind ((hI.triple_call _).pre hpre) fun reply => ?_
      cases reply with
      | error e => exact Triple.pure fun w hw => hw
      | ok x => exact Triple.bind (hI.modify fun _ => rfl) fun _ => Triple.pure fun w hw => hw
  have hrequeue : Triple I (recoverRequeue sha256 qcfg env) fun _ => I := by
    refine Triple.get_bind fun s hs => ?_
    have hpre : ∀ w, w = s → I w := by
      rintro w rfl
      exact hs
    refine Triple.ite (fun _ => Triple.pure hpre) fun _ => ?_
    refine Triple.bind ((hI.triple_call _).pre hpre) fun reply => ?_
    cases reply with
    | error e => exact Triple.pure fun w hw => hw
    | ok x => exact Triple.bind (hI.modify fun _ => rfl) fun _ => Triple.pure fun w hw => hw
  refine Triple.bind hterminal fun err => ?_
  cases err with
  | some e => exact Triple.pure fun w hw => hw
  | none =>
    refine Triple.bind hrequeue fun err => ?_
    cases err with
    | some e => exact Triple.pure fun w hw => hw
    | none =>
      intro w hw
      exact hI.recovered w _ hw

theorem Robust.startRun (hI : Robust sha256 qcfg I) : Triple I (startRun sha256 qcfg cfg env) fun _ => I := by
  refine Triple.bind hI.recoverPending fun err => ?_
  cases err with
  | some e => exact Triple.bind (hI.modify fun _ => rfl) fun _ => Triple.pure fun w hw => hw
  | none =>
    refine Triple.bind (hI.triple_call _) fun reclaimed => Triple.bind hI.choose fun _ => ?_
    exact Triple.bind (hI.modify fun _ => rfl) fun _ => Triple.pure fun w hw => hw

theorem Robust.pruneIfDue (hI : Robust sha256 qcfg I) : Triple I (pruneIfDue sha256 qcfg cfg env) fun _ => I := by
  refine Triple.bind hI.choose fun c => Triple.get_bind fun s hs => ?_
  have hpre : ∀ w, w = s → I w := by
    rintro w rfl
    exact hs
  cases s.replayer.running with
  | none => exact Triple.pure hpre
  | some l =>
    refine Triple.ite (fun _ => ?_) fun _ => Triple.pure hpre
    refine Triple.bind ((hI.triple_call _).pre hpre) fun _ => Triple.bind hI.choose fun _ => ?_
    exact hI.modify fun _ => rfl

end Robust

end AgentWorkflow.VmAgent
