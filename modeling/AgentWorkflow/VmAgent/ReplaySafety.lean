import AgentWorkflow.VmAgent.ReplayRules

/-!
# The replayer never re-sends a final result

A row with a final result (an acknowledgement or a fatal rejection) is
uploaded, dropped or deleted, or it is the row whose terminal write is staged.
The invariant holds at every interaction, whichever way a queue call fails.
-/

namespace AgentWorkflow.VmAgent
open AgentWorkflow.Lib

/-! ### What the log says of a row -/

/-- `Send` was called for the row and its outcome satisfies `p`. -/
def Sent (p : SendOutcome → Bool) (h : List ReplayEvent) (id : ℤ) : Prop :=
  ∃ taskId payload o, ReplayEvent.send id taskId payload o ∈ h ∧ p o = true

def Acked (h : List ReplayEvent) (id : ℤ) : Prop := Sent (fun o => decide (o = .ok)) h id

def Rejected (h : List ReplayEvent) (id : ℤ) : Prop := Sent SendOutcome.isFatal h id

def Final (h : List ReplayEvent) (id : ℤ) : Prop := Sent SendOutcome.isFinal h id

theorem Sent.append {p : SendOutcome → Bool} {h : List ReplayEvent} {id : ℤ} (hs : Sent p h id)
    (h' : List ReplayEvent) : Sent p (h ++ h') id := by
  obtain ⟨taskId, payload, o, hmem, ho⟩ := hs
  exact ⟨taskId, payload, o, List.mem_append_left _ hmem, ho⟩

theorem sent_snoc_call {p : SendOutcome → Bool} {h : List ReplayEvent} {id : ℤ} {op : QueueOp}
    {reply : Except QueueError Reply} {before after : Queue} :
    Sent p (h ++ [.call op reply before after]) id ↔ Sent p h id := by
  simp [Sent]

theorem sent_snoc_send {p : SendOutcome → Bool} {h : List ReplayEvent} {id i : ℤ} {taskId payload : Bytes}
    {o : SendOutcome} :
    Sent p (h ++ [.send i taskId payload o]) id ↔ Sent p h id ∨ (id = i ∧ p o = true) := by
  constructor
  · rintro ⟨t, b, o', hmem, ho⟩
    rcases List.mem_append.mp hmem with hmem | hmem
    · exact Or.inl ⟨t, b, o', hmem, ho⟩
    · cases List.mem_singleton.mp hmem
      exact Or.inr ⟨rfl, ho⟩
  · rintro (hs | ⟨rfl, ho⟩)
    · exact hs.append _
    · exact ⟨taskId, payload, o, by simp, ho⟩

theorem Acked.final {h : List ReplayEvent} {id : ℤ} (hs : Acked h id) : Final h id := by
  obtain ⟨t, b, o, hmem, ho⟩ := hs
  exact ⟨t, b, o, hmem, by simp [SendOutcome.isFinal, of_decide_eq_true ho]⟩

theorem Rejected.final {h : List ReplayEvent} {id : ℤ} (hs : Rejected h id) : Final h id := by
  obtain ⟨t, b, o, hmem, ho⟩ := hs
  exact ⟨t, b, o, hmem, by simp [SendOutcome.isFinal, ho]⟩

/-- What the log allows next: no send of a final row, and no terminal status
without its cause. -/
def Legal (maxRetries : ℤ) (h : List ReplayEvent) : ReplayEvent → Prop
  | .send id _ _ _ => ¬ Final h id
  | .call op _ before after => ∀ id r, after.row id = some r →
    (r.status = .uploaded → (∃ s, before.row id = some s ∧ s.status = .uploaded) ∨ Acked h id) ∧
    (r.status = .dropped → (∃ s, before.row id = some s ∧ s.status = .dropped) ∨ Rejected h id ∨
      ∃ reason now, op = .markFailed id reason maxRetries now ∧ maxRetries ≤ r.retryCount)
  | .recovered _ | .ticked _ => True

def Lawful (maxRetries : ℤ) (h : List ReplayEvent) : Prop := Everywhere (Legal maxRetries) h

/-! ### The invariant -/

/-- The staged write has its cause in the log. -/
def PendingTerminal.Justified (h : List ReplayEvent) (p : PendingTerminal) : Prop :=
  match p.kind with
  | .uploaded => Acked h p.id
  | .dropped => Rejected h p.id

structure Safe (sha256 : Bytes → Bytes) (maxRetries : ℤ) (staged : Option PendingTerminal) (w : World) : Prop where
  inv : w.replayer.queue.Inv sha256
  lawful : Lawful maxRetries w.log
  known : ∀ id, Final w.log id → id ≤ w.replayer.queue.lastId
  settled : ∀ id r, Final w.log id → w.replayer.queue.row id = some r →
    r.status = .uploaded ∨ r.status = .dropped ∨ (r.status = .uploading ∧ ∃ p, staged = some p ∧ p.id = id)
  justified : ∀ p, staged = some p → p.Justified w.log

/-- The calls that keep the invariant, by what the log knows. -/
def Permitted (maxRetries : ℤ) (staged : Option PendingTerminal) (h : List ReplayEvent) : QueueOp → Prop
  | .markUploaded id _ => Acked h id
  | .forceDropped id _ _ => Rejected h id
  | .markFailed id _ m _ => ¬ Final h id ∧ m = maxRetries
  | .requeueUploading ids => ∀ p, staged = some p → p.id ∉ ids
  | .reclaimUploading => staged = none
  | .enqueue _ _ _ | .dequeue _ _ | .prune _ => True

section Step
variable {sha256 : Bytes → Bytes} {qcfg : QueueConfig} {maxRetries : ℤ} {staged : Option PendingTerminal}

/-- A permitted call makes a legal entry. -/
theorem StepRow.legal {q : Queue} {op : QueueOp} {reply : Except QueueError Reply} {id : ℤ}
    {before after : Option Row} {h : List ReplayEvent} (hs : StepRow qcfg q op reply id before after)
    (hm : 0 < maxRetries) (hp : Permitted maxRetries staged h op) :
    ∀ r, after = some r →
      (r.status = .uploaded → (∃ s, before = some s ∧ s.status = .uploaded) ∨ Acked h id) ∧
      (r.status = .dropped → (∃ s, before = some s ∧ s.status = .dropped) ∨ Rejected h id ∨
        ∃ reason now, op = .markFailed id reason maxRetries now ∧ maxRetries ≤ r.retryCount) := by
  intro r hr
  cases hs with
  | same => exact ⟨fun h => Or.inl ⟨r, hr, h⟩, fun h => Or.inl ⟨r, hr, h⟩⟩
  | create s taskId payload now _ _ _ hfresh =>
    cases hr
    simp [hfresh.1]
  | claim s limit now _ _ _ =>
    cases hr
    simp [Queue.claimRow]
  | upload s now hop _ _ =>
    cases hr
    rw [hop] at hp
    exact ⟨fun _ => Or.inr hp, fun h => by simp [Queue.uploadRow] at h⟩
  | fail s reason m now hop _ _ =>
    cases hr
    rw [hop] at hp
    obtain ⟨-, rfl⟩ := hp
    have heff : Queue.effectiveMaxRetries qcfg m = m := if_neg (by omega)
    refine ⟨fun h => ?_, fun h => Or.inr (Or.inr ⟨reason, now, hop, ?_⟩)⟩
    · simp only [Queue.failRow] at h
      split_ifs at h
    · simp only [Queue.failRow, heff] at h ⊢
      split_ifs at h with hlimit
      exact hlimit
  | drop s reason now hop _ _ =>
    cases hr
    rw [hop] at hp
    exact ⟨fun h => by simp [Queue.dropRow] at h, fun _ => Or.inr (Or.inl hp)⟩
  | release s _ _ _ _ =>
    cases hr
    simp [Queue.requeueRow]
  | prune => cases hr

/-- A permitted call keeps a final row settled. -/
theorem StepRow.settled {q : Queue} {op : QueueOp} {reply : Except QueueError Reply} {id : ℤ}
    {before after : Option Row} {h : List ReplayEvent} (hs : StepRow qcfg q op reply id before after)
    (hp : Permitted maxRetries staged h op) (hfin : Final h id) (hle : id ≤ q.lastId)
    (hb : ∀ s, before = some s → s.status = .uploaded ∨ s.status = .dropped ∨
      (s.status = .uploading ∧ ∃ p, staged = some p ∧ p.id = id)) :
    ∀ r, after = some r → r.status = .uploaded ∨ r.status = .dropped ∨
      (r.status = .uploading ∧ ∃ p, staged = some p ∧ p.id = id) := by
  intro r hr
  cases hs with
  | same => exact hb r hr
  | create s taskId payload now _ _ hnew _ => omega
  | claim s limit now _ _ hq =>
    rcases hb s rfl with h | h | ⟨h, -⟩ <;> rw [h] at hq <;> cases hq
  | upload s now _ _ _ =>
    cases hr
    exact Or.inl rfl
  | fail s reason m now hop _ _ =>
    rw [hop] at hp
    exact absurd hfin hp.1
  | drop s reason now _ _ _ =>
    cases hr
    exact Or.inr (Or.inl rfl)
  | release s hop _ _ hu =>
    obtain ⟨p, hstaged, hpid⟩ : ∃ p, staged = some p ∧ p.id = id := by
      rcases hb s rfl with h | h | ⟨-, h⟩
      · rw [h] at hu
        cases hu
      · rw [h] at hu
        cases hu
      · exact h
    rcases hop with ⟨ids, hop, hin⟩ | hop
    · rw [hop] at hp
      exact absurd (hpid ▸ hin) (hp p hstaged)
    · rw [hop] at hp
      rw [hstaged] at hp
      cases hp
  | prune => cases hr

theorem PendingTerminal.Justified.append {h : List ReplayEvent} {p : PendingTerminal} (hj : p.Justified h)
    (h' : List ReplayEvent) : p.Justified (h ++ h') := by
  unfold PendingTerminal.Justified at hj ⊢
  cases hk : p.kind <;> rw [hk] at hj <;> exact Sent.append hj h'

/-- The queue after the call is the one before it or the one the call computes;
either way the entry is legal and the invariant stays. -/
theorem Safe.record (qcfg : QueueConfig) {w : World} (hw : Safe sha256 maxRetries staged w) (hm : 0 < maxRetries) {op : QueueOp}
    (hp : Permitted maxRetries staged w.log op) (reply : Except QueueError Reply) {q' : Queue}
    (hq' : q' = w.replayer.queue ∨ q' = (op.exec sha256 qcfg w.replayer.queue).2) :
    Safe sha256 maxRetries staged ((w.setQueue q').record (.call op reply w.replayer.queue q')) := by
  have hinv : q'.Inv sha256 := by
    rcases hq' with rfl | rfl
    · exact hw.inv
    · exact exec_inv qcfg hw.inv op
  have hlast : w.replayer.queue.lastId ≤ q'.lastId := by
    rcases hq' with rfl | rfl
    · exact le_rfl
    · exact exec_lastId_le hw.inv op
  have hstep : ∀ id, ∃ reply', StepRow qcfg w.replayer.queue op reply' id (w.replayer.queue.row id) (q'.row id) := by
    intro id
    rcases hq' with rfl | rfl
    · exact ⟨.error .database, .same _ (by cases op <;> rfl) (by simp [claimedIds])⟩
    · exact ⟨_, stepRow hw.inv op id⟩
  refine ⟨hinv, ?_, ?_, ?_, ?_⟩
  · refine Everywhere.snoc hw.lawful ?_
    intro id
    obtain ⟨reply', hs⟩ := hstep id
    exact hs.legal hm hp
  · intro id hfin
    exact (hw.known id (sent_snoc_call.mp hfin)).trans hlast
  · intro id r hfin
    have hfin' := sent_snoc_call.mp hfin
    obtain ⟨reply', hs⟩ := hstep id
    exact hs.settled hp hfin' (hw.known id hfin') (fun s => hw.settled id s hfin') r
  · intro p hstaged
    exact (hw.justified p hstaged).append _

theorem Safe.endCall {w : World} (hw : Safe sha256 maxRetries staged w) (hm : 0 < maxRetries) {op : QueueOp}
    (hp : Permitted maxRetries staged w.log op) (fault : Fault) :
    Safe sha256 maxRetries staged (w.endCall sha256 qcfg op fault).2 := by
  rcases @endCall_cases sha256 qcfg w op fault with ⟨-, -, h⟩ | ⟨e, -, h⟩ | ⟨e, -, h⟩
  · rw [h]
    exact hw.record qcfg hm hp _ (Or.inr rfl)
  · rw [h]
    exact hw.record qcfg hm hp _ (Or.inl rfl)
  · rw [h]
    exact hw.record qcfg hm hp _ (Or.inr rfl)

/-- A staged write that took effect need not be staged. -/
theorem Safe.unstage {p : PendingTerminal} {w : World} (hw : Safe sha256 maxRetries (some p) w)
    (hrow : ∀ r, w.replayer.queue.row p.id = some r → r.status ≠ .uploading) :
    Safe sha256 maxRetries none w where
  inv := hw.inv
  lawful := hw.lawful
  known := hw.known
  settled := by
    intro id r hfin hr
    rcases hw.settled id r hfin hr with h | h | ⟨h, p', hp', rfl⟩
    · exact Or.inl h
    · exact Or.inr (Or.inl h)
    · cases hp'
      exact absurd h (hrow r hr)
  justified := fun _ h => by cases h

theorem Safe.of_eq {w w' : World} (hw : Safe sha256 maxRetries staged w)
    (hq : w'.replayer.queue = w.replayer.queue) (hl : w'.log = w.log) : Safe sha256 maxRetries staged w' where
  inv := hq ▸ hw.inv
  lawful := hl ▸ hw.lawful
  known := by
    rw [hq, hl]
    exact hw.known
  settled := by
    rw [hq, hl]
    exact hw.settled
  justified := by
    rw [hl]
    exact hw.justified

end Step

/-! ### Assertions of the program -/

section Program
variable (sha256 : Bytes → Bytes) (maxRetries : ℤ)

/-- The invariant with the recovery fields at given values. -/
structure Holding (staged pending : Option PendingTerminal) (requeue : List ℤ) (w : World) : Prop where
  safe : Safe sha256 maxRetries staged w
  terminal : w.replayer.pendingTerminal = pending
  requeue : w.replayer.pendingRequeue = requeue

/-- Between interactions of different ticks, what is staged is what the field
holds. -/
def Idle (w : World) : Prop := Safe sha256 maxRetries w.replayer.pendingTerminal w

/-- The items of the batch that are still to come: claimed, and without a final
result. -/
structure Unsent (rest : List QueuedItem) (w : World) : Prop where
  nodup : (rest.map QueuedItem.id).Nodup
  pending : ∀ item ∈ rest, ¬ Final w.log item.id
  known : ∀ item ∈ rest, item.id ≤ w.replayer.queue.lastId
  uploading : ∀ item ∈ rest, ∀ r, w.replayer.queue.row item.id = some r → r.status = .uploading

variable {sha256 maxRetries} {qcfg : QueueConfig} {cfg : ReplayConfig} {env : ℕ → Choice}
  {decorateResume : Bytes → Bytes} {staged pending : Option PendingTerminal} {requeue : List ℤ}

theorem Holding.endCall {w : World} (hw : Holding sha256 maxRetries staged pending requeue w) (hm : 0 < maxRetries)
    {op : QueueOp} (hp : Permitted maxRetries staged w.log op) (fault : Fault) :
    Holding sha256 maxRetries staged pending requeue (w.endCall sha256 qcfg op fault).2 := by
  obtain ⟨hterminal, hrequeue⟩ := endCall_fields sha256 qcfg w op fault
  exact ⟨hw.safe.endCall hm hp fault, hterminal.trans hw.terminal, hrequeue.trans hw.requeue⟩

theorem Holding.stable (hm : 0 < maxRetries) :
    Stable sha256 qcfg (Holding sha256 maxRetries staged pending requeue) where
  enqueue := by
    intro w x hw
    have hp : Permitted maxRetries staged w.log (.enqueue x.1 x.2.1 x.2.2) := trivial
    exact hw.endCall hm hp .none
  next := by
    intro w n hw
    exact ⟨hw.safe.of_eq rfl rfl, hw.terminal, hw.requeue⟩

/-- A call that touches none of the items leaves them unsent. -/
theorem Unsent.endCall {rest : List QueuedItem} {w : World} (hw : Unsent rest w) (hq : w.replayer.queue.Inv sha256)
    {op : QueueOp} (hop : ∀ item ∈ rest, ∀ reply after, StepRow qcfg w.replayer.queue op reply item.id
      (w.replayer.queue.row item.id) after → after = w.replayer.queue.row item.id)
    (fault : Fault) : Unsent rest (w.endCall sha256 qcfg op fault).2 := by
  have hlog : ∀ (reply : Except QueueError Reply) (q q' : Queue), ∀ item ∈ rest,
      ¬ Final (w.log ++ [.call op reply q q']) item.id := by
    intro reply q q' item hitem hfin
    exact hw.pending item hitem (sent_snoc_call.mp hfin)
  have hexec : ∀ item ∈ rest, (op.exec sha256 qcfg w.replayer.queue).2.row item.id = w.replayer.queue.row item.id :=
    fun item hitem => hop item hitem _ _ (stepRow hq op item.id)
  have hlast := @exec_lastId_le sha256 qcfg _ hq op
  rcases @endCall_cases sha256 qcfg w op fault with ⟨-, -, h⟩ | ⟨e, -, h⟩ | ⟨e, -, h⟩
  · rw [h]
    exact ⟨hw.nodup, hlog _ _ _, fun item hi => (hw.known item hi).trans hlast,
      fun item hi r hr => hw.uploading item hi r ((hexec item hi).symm.trans hr)⟩
  · rw [h]
    exact ⟨hw.nodup, hlog _ _ _, hw.known, hw.uploading⟩
  · rw [h]
    exact ⟨hw.nodup, hlog _ _ _, fun item hi => (hw.known item hi).trans hlast,
      fun item hi r hr => hw.uploading item hi r ((hexec item hi).symm.trans hr)⟩

theorem Unsent.stable {rest : List QueuedItem} : Stable sha256 qcfg fun w =>
    w.replayer.queue.Inv sha256 ∧ Unsent rest w where
  enqueue := by
    intro w x ⟨hq, hw⟩
    refine ⟨exec_inv qcfg hq _, hw.endCall hq (fun item hi reply after hs => ?_) .none⟩
    have hle := hw.known item hi
    cases hr : w.replayer.queue.row item.id with
    | none =>
      rw [hr] at hs
      exact hs.absent hle
    | some r =>
      rw [hr] at hs
      rcases hs.of_enqueue with h | ⟨h, -⟩
      · exact h
      · cases h
  next := by
    intro w n ⟨hq, hw⟩
    exact ⟨hq, hw.nodup, hw.pending, hw.known, hw.uploading⟩

/-! ### Recovery -/

theorem terminalOp_permitted {p : PendingTerminal} {w : World}
    (hw : Holding sha256 maxRetries (some p) pending requeue w) (now : ℚ) :
    Permitted maxRetries (some p) w.log (terminalOp p now) := by
  have hj := hw.safe.justified p rfl
  unfold PendingTerminal.Justified at hj
  unfold terminalOp
  cases hk : p.kind <;> rw [hk] at hj <;> exact hj

variable (pending requeue) in
theorem triple_applyTerminal (hm : 0 < maxRetries) (p : PendingTerminal) :
    Triple (Holding sha256 maxRetries (some p) pending requeue) (applyTerminal sha256 qcfg env p) fun reply w =>
      match reply with
      | .ok _ => Holding sha256 maxRetries none pending requeue w
      | .error _ => Holding sha256 maxRetries (some p) pending requeue w := by
  refine triple_call (Holding.stable hm) ?_
  intro w now n hw
  have hw' : Holding sha256 maxRetries (some p) pending requeue
      (w.endCall sha256 qcfg (terminalOp p now) (env n).fault).2 :=
    hw.endCall hm (terminalOp_permitted hw now) (env n).fault
  cases hreply : (w.endCall sha256 qcfg (terminalOp p now) (env n).fault).1 with
  | error e => exact hw'
  | ok x =>
    obtain ⟨hok, hq⟩ := endCall_ok hreply
    refine ⟨hw'.safe.unstage ?_, hw'.terminal, hw'.requeue⟩
    rw [hq]
    exact terminalOp_ok p now hok

theorem triple_recoverTerminal (hm : 0 < maxRetries) :
    Triple (Idle sha256 maxRetries) (recoverTerminal sha256 qcfg env) fun err w =>
      match err with
      | some _ => Idle sha256 maxRetries w
      | none => Safe sha256 maxRetries none w ∧ w.replayer.pendingTerminal = none := by
  refine Triple.get_bind ?_
  intro s hs
  cases hp : s.replayer.pendingTerminal with
  | none =>
    refine Triple.pure ?_
    rintro w rfl
    unfold Idle at hs
    rw [hp] at hs
    exact ⟨hs, hp⟩
  | some p =>
    refine Triple.bind ((triple_applyTerminal (some p) s.replayer.pendingRequeue hm p).pre ?_) ?_
    · rintro w rfl
      unfold Idle at hs
      rw [hp] at hs
      exact ⟨hs, hp, rfl⟩
    · intro reply
      cases reply with
      | error e =>
        refine Triple.pure ?_
        intro w hw
        show Idle sha256 maxRetries w
        unfold Idle
        rw [hw.terminal]
        exact hw.safe
      | ok x =>
        intro w hw
        exact ⟨hw.safe.of_eq rfl rfl, rfl⟩

/-- Nothing is staged and nothing waits to be put back. -/
def Clear (sha256 : Bytes → Bytes) (maxRetries : ℤ) (w : World) : Prop := Holding sha256 maxRetries none none [] w

theorem Clear.idle {w : World} (hw : Clear sha256 maxRetries w) : Idle sha256 maxRetries w := by
  unfold Idle
  rw [hw.terminal]
  exact hw.safe

theorem triple_recoverRequeue (hm : 0 < maxRetries) :
    Triple (fun w => Safe sha256 maxRetries none w ∧ w.replayer.pendingTerminal = none)
      (recoverRequeue sha256 qcfg env) fun err w =>
        match err with
        | some _ => Idle sha256 maxRetries w
        | none => Clear sha256 maxRetries w := by
  refine Triple.get_bind ?_
  intro s hs
  refine Triple.ite ?_ ?_
  · intro hnil
    refine Triple.pure ?_
    rintro w rfl
    exact ⟨hs.1, hs.2, hnil⟩
  · intro _
    have hcall : Triple (Holding sha256 maxRetries none none s.replayer.pendingRequeue)
        (call sha256 qcfg env fun _ => .requeueUploading s.replayer.pendingRequeue)
        fun _ => Holding sha256 maxRetries none none s.replayer.pendingRequeue := by
      refine triple_call (Holding.stable hm) ?_
      intro w now n hw
      refine hw.endCall hm ?_ _
      intro p hp
      cases hp
    refine Triple.bind (hcall.pre ?_) ?_
    · rintro w rfl
      exact ⟨hs.1, hs.2, rfl⟩
    · intro reply
      cases reply with
      | error e =>
        refine Triple.pure ?_
        intro w hw
        show Idle sha256 maxRetries w
        unfold Idle
        rw [hw.terminal]
        exact hw.safe
      | ok x =>
        intro w hw
        exact ⟨hw.safe.of_eq rfl rfl, hw.terminal, rfl⟩

/-- A ghost entry of the log changes nothing. -/
theorem Safe.mark {w : World} (hw : Safe sha256 maxRetries staged w) {e : ReplayEvent}
    (he : ∀ h, Legal maxRetries h e) (hs : ∀ p h id, Sent p (h ++ [e]) id ↔ Sent p h id) :
    Safe sha256 maxRetries staged (w.record e) where
  inv := hw.inv
  lawful := Everywhere.snoc hw.lawful (he w.log)
  known := fun id hfin => hw.known id ((hs _ _ _).mp hfin)
  settled := fun id r hfin => hw.settled id r ((hs _ _ _).mp hfin)
  justified := fun p hp => (hw.justified p hp).append _

theorem triple_recoverPending (hm : 0 < maxRetries) :
    Triple (Idle sha256 maxRetries) (recoverPending sha256 qcfg env) fun err w =>
      match err with
      | some _ => Idle sha256 maxRetries w
      | none => Clear sha256 maxRetries w := by
  refine Triple.bind (triple_recoverTerminal hm) ?_
  intro err
  cases err with
  | some e => exact Triple.pure fun w hw => hw
  | none =>
    refine Triple.bind (triple_recoverRequeue hm) ?_
    intro err
    cases err with
    | some e => exact Triple.pure fun w hw => hw
    | none =>
      intro w hw
      refine ⟨hw.safe.mark (fun _ => trivial) ?_, hw.terminal, hw.requeue⟩
      simp [Sent]

/-! ### One batch -/

/-- The loop invariant: nothing is staged but possibly the write of the item in
hand, and the rest of the batch is unsent. -/
structure Batch (sha256 : Bytes → Bytes) (maxRetries : ℤ) (staged : Option PendingTerminal)
    (rest : List QueuedItem) (w : World) : Prop where
  holding : Holding sha256 maxRetries staged none [] w
  unsent : Unsent rest w

theorem Batch.stable {rest : List QueuedItem} (hm : 0 < maxRetries) :
    Stable sha256 qcfg (Batch sha256 maxRetries staged rest) where
  enqueue := by
    intro w x hw
    exact ⟨(Holding.stable hm).enqueue w x hw.holding, (Unsent.stable.enqueue w x ⟨hw.holding.safe.inv, hw.unsent⟩).2⟩
  next := by
    intro w n hw
    obtain ⟨⟨hsafe, hterminal, hrequeue⟩, hunsent⟩ := hw
    exact ⟨⟨hsafe.of_eq rfl rfl, hterminal, hrequeue⟩,
      ⟨hunsent.nodup, hunsent.pending, hunsent.known, hunsent.uploading⟩⟩

/-- A call on the item in hand keeps the batch. -/
theorem Batch.endCall {rest : List QueuedItem} {w : World} (hw : Batch sha256 maxRetries staged rest w)
    (hm : 0 < maxRetries) {op : QueueOp} (hp : Permitted maxRetries staged w.log op) {i : ℤ}
    (ht : op.target = some i) (hi : i ∉ rest.map QueuedItem.id) (fault : Fault) :
    Batch sha256 maxRetries staged rest (w.endCall sha256 qcfg op fault).2 := by
  refine ⟨hw.holding.endCall hm hp fault, hw.unsent.endCall hw.holding.safe.inv ?_ fault⟩
  intro item hitem reply after hs
  refine hs.of_target ht ?_
  intro he
  exact hi (he ▸ List.mem_map_of_mem hitem)

/-- The send of the first item of the rest. -/
theorem Batch.send {item : QueuedItem} {rest : List QueuedItem} {w : World}
    (hw : Batch sha256 maxRetries none (item :: rest) w) (payload : Bytes) (o : SendOutcome)
    (hstaged : ∀ p, staged = some p → p.id = item.id ∧
      p.Justified (w.log ++ [.send item.id item.taskId payload o]))
    (hfinal : o.isFinal = true → ∃ p, staged = some p) :
    Batch sha256 maxRetries staged rest (w.record (.send item.id item.taskId payload o)) := by
  have hsafe := hw.holding.safe
  have hnodup := hw.unsent.nodup
  rw [List.map_cons, List.nodup_cons] at hnodup
  have hmem : item ∈ item :: rest := List.mem_cons_self ..
  refine ⟨⟨⟨hsafe.inv, Everywhere.snoc hsafe.lawful (hw.unsent.pending item hmem), ?_, ?_, ?_⟩, hw.holding.terminal,
    hw.holding.requeue⟩, hnodup.2, ?_, ?_, ?_⟩
  · intro id hfin
    rcases sent_snoc_send.mp hfin with hfin | ⟨rfl, -⟩
    · exact hsafe.known id hfin
    · exact hw.unsent.known item hmem
  · intro id r hfin hr
    rcases sent_snoc_send.mp hfin with hfin | ⟨rfl, ho⟩
    · rcases hsafe.settled id r hfin hr with h | h | ⟨-, p, hp, -⟩
      · exact Or.inl h
      · exact Or.inr (Or.inl h)
      · cases hp
    · obtain ⟨p, hp⟩ := hfinal ho
      exact Or.inr (Or.inr ⟨hw.unsent.uploading item hmem r hr, p, hp, (hstaged p hp).1⟩)
  · intro p hp
    exact (hstaged p hp).2
  · intro other hother hfin
    rcases sent_snoc_send.mp hfin with hfin | ⟨he, -⟩
    · exact hw.unsent.pending other (List.mem_cons_of_mem _ hother) hfin
    · exact hnodup.1 (he ▸ List.mem_map_of_mem hother)
  · intro other hother
    exact hw.unsent.known other (List.mem_cons_of_mem _ hother)
  · intro other hother
    exact hw.unsent.uploading other (List.mem_cons_of_mem _ hother)

/-- Putting the rest of the batch back. -/
theorem triple_requeueRest (hm : 0 < maxRetries) {rest : List QueuedItem} (ids : List ℤ) :
    Triple (Batch sha256 maxRetries none rest) (call sha256 qcfg env fun _ => .requeueUploading ids)
      fun _ => Clear sha256 maxRetries := by
  have hcall : Triple (Holding sha256 maxRetries none none []) (call sha256 qcfg env fun _ => .requeueUploading ids)
      fun _ => Holding sha256 maxRetries none none [] := by
    refine triple_call (Holding.stable hm) ?_
    intro w now n hw
    refine hw.endCall hm ?_ _
    intro p hp
    cases hp
  exact hcall.pre fun w hw => hw.holding

theorem triple_stageRequeue (ids : List ℤ) :
    Triple (Clear sha256 maxRetries) (stageRequeue ids) fun _ => Idle sha256 maxRetries := by
  intro w hw
  have hsafe : Safe sha256 maxRetries none w := hw.safe
  show Safe sha256 maxRetries w.replayer.pendingTerminal _
  rw [hw.terminal]
  exact hsafe.of_eq rfl rfl

theorem triple_stageTerminal {rest : List QueuedItem} (p : PendingTerminal) (ids : List ℤ) :
    Triple (Batch sha256 maxRetries (some p) rest) (stageTerminal p ids) fun _ => Idle sha256 maxRetries := by
  intro w hw
  exact hw.holding.safe.of_eq rfl rfl

/-- The terminal write of the item in hand. -/
theorem triple_persistTerminal (hm : 0 < maxRetries) {rest : List QueuedItem} (p : PendingTerminal)
    (hp : p.id ∉ rest.map QueuedItem.id) :
    Triple (Batch sha256 maxRetries (some p) rest) (applyTerminal sha256 qcfg env p) fun reply w =>
      match reply with
      | .ok _ => Batch sha256 maxRetries none rest w
      | .error _ => Batch sha256 maxRetries (some p) rest w := by
  refine triple_call (Batch.stable hm) ?_
  intro w now n hw
  have hw' : Batch sha256 maxRetries (some p) rest (w.endCall sha256 qcfg (terminalOp p now) (env n).fault).2 :=
    hw.endCall hm (terminalOp_permitted hw.holding now) (terminalOp_target p now) hp (env n).fault
  cases hreply : (w.endCall sha256 qcfg (terminalOp p now) (env n).fault).1 with
  | error e => exact hw'
  | ok x =>
    obtain ⟨hok, hq⟩ := endCall_ok hreply
    refine ⟨⟨hw'.holding.safe.unstage ?_, hw'.holding.terminal, hw'.holding.requeue⟩, hw'.unsent⟩
    rw [hq]
    exact terminalOp_ok p now hok

theorem Batch.of_eq {rest : List QueuedItem} {w w' : World} (hw : Batch sha256 maxRetries staged rest w)
    (hq : w'.replayer.queue = w.replayer.queue) (hl : w'.log = w.log)
    (ht : w'.replayer.pendingTerminal = w.replayer.pendingTerminal)
    (hr : w'.replayer.pendingRequeue = w.replayer.pendingRequeue) : Batch sha256 maxRetries staged rest w' where
  holding := ⟨hw.holding.safe.of_eq hq hl, ht.trans hw.holding.terminal, hr.trans hw.holding.requeue⟩
  unsent := by
    refine ⟨hw.unsent.nodup, ?_, ?_, ?_⟩
    · rw [hl]
      exact hw.unsent.pending
    · rw [hq]
      exact hw.unsent.known
    · rw [hq]
      exact hw.unsent.uploading

theorem triple_markFailed (hm : 0 < cfg.maxRetries) {rest : List QueuedItem} (item : QueuedItem)
    (hi : item.id ∉ rest.map QueuedItem.id) (reason : Bytes) :
    Triple (fun w => Batch sha256 cfg.maxRetries none rest w ∧ ¬ Final w.log item.id)
      (call sha256 qcfg env fun now => .markFailed item.id reason cfg.maxRetries now)
      fun _ => Batch sha256 cfg.maxRetries none rest := by
  refine triple_call ⟨?_, ?_⟩ ?_
  · intro w x hw
    exact ⟨(Batch.stable hm).enqueue w x hw.1, fun hfin => hw.2 (sent_snoc_call.mp hfin)⟩
  · intro w n hw
    exact ⟨hw.1.of_eq rfl rfl rfl rfl, hw.2⟩
  · intro w now n hw
    have hp : Permitted cfg.maxRetries none w.log (.markFailed item.id reason cfg.maxRetries now) := ⟨hw.2, rfl⟩
    exact hw.1.endCall hm hp rfl hi (env n).fault

theorem triple_tickLoop (hm : 0 < cfg.maxRetries) (items : List QueuedItem) (index : ℕ) (rest : List QueuedItem)
    (anyFailed : Bool) :
    Triple (Batch sha256 cfg.maxRetries none rest)
      (tickLoop sha256 qcfg cfg env decorateResume items index rest anyFailed) fun _ => Idle sha256 cfg.maxRetries := by
  induction rest generalizing index anyFailed with
  | nil =>
    refine Triple.pure ?_
    intro w hw
    exact Clear.idle hw.holding
  | cons item rest ih =>
    unfold tickLoop
    have hchoose : Triple (Batch sha256 cfg.maxRetries none (item :: rest)) (choose sha256 qcfg env)
        fun _ => Batch sha256 cfg.maxRetries none (item :: rest) :=
      (triple_choose (Batch.stable hm)).weaken fun _ _ h => h.1
    refine Triple.bind hchoose fun c => Triple.ite (fun _ => ?_) fun _ => ?_
    · -- the context is done
      refine Triple.bind (triple_requeueRest hm _) fun reply => ?_
      cases reply with
      | error e => exact Triple.bind (triple_stageRequeue _) fun _ => Triple.pure fun w hw => hw
      | ok x => exact Triple.pure fun w hw => Clear.idle hw
    refine Triple.bind hchoose fun c => Triple.ite (fun _ => ?_) fun _ => ?_
    · -- the flow is paused
      refine Triple.bind (triple_requeueRest hm _) fun reply => ?_
      cases reply with
      | error e => exact Triple.bind (triple_stageRequeue _) fun _ => Triple.pure fun w hw => hw
      | ok x => exact Triple.pure fun w hw => Clear.idle hw
    refine Triple.bind hchoose fun c => ?_
    have hfresh : ∀ w, Batch sha256 cfg.maxRetries none (item :: rest) w → item.id ∉ rest.map QueuedItem.id := by
      intro w hw
      have hnodup := hw.unsent.nodup
      rw [List.map_cons, List.nodup_cons] at hnodup
      exact hnodup.1
    refine Triple.assume hfresh fun hnot => ?_
    cases ho : c.send with
    | ok =>
      let p : PendingTerminal := ⟨.uploaded, item.id, []⟩
      refine Triple.bind (Q := fun _ => Batch sha256 cfg.maxRetries (some p) rest) ?_ fun _ => ?_
      · intro w hw
        refine hw.send _ _ ?_ fun _ => ⟨p, rfl⟩
        rintro _ ⟨⟩
        exact ⟨rfl, sent_snoc_send.mpr (Or.inr ⟨rfl, rfl⟩)⟩
      refine Triple.bind (triple_persistTerminal hm p hnot) fun reply => ?_
      cases reply with
      | error e => exact Triple.bind (triple_stageTerminal p _) fun _ => Triple.pure fun w hw => hw
      | ok x =>
        refine Triple.bind (Q := fun _ => Batch sha256 cfg.maxRetries none rest) ?_ fun _ => ih _ _
        intro w hw
        exact hw.of_eq rfl rfl rfl rfl
    | failed reason fatal =>
      cases fatal with
      | true =>
        let p : PendingTerminal := ⟨.dropped, item.id, reason⟩
        refine Triple.bind (Q := fun _ => Batch sha256 cfg.maxRetries (some p) rest) ?_ fun _ => ?_
        · intro w hw
          refine hw.send _ _ ?_ fun _ => ⟨p, rfl⟩
          rintro _ ⟨⟩
          exact ⟨rfl, sent_snoc_send.mpr (Or.inr ⟨rfl, rfl⟩)⟩
        refine Triple.bind (triple_persistTerminal hm p hnot) fun reply => ?_
        cases reply with
        | error e => exact Triple.bind (triple_stageTerminal p _) fun _ => Triple.pure fun w hw => hw
        | ok x =>
          refine Triple.bind (Q := fun _ => Batch sha256 cfg.maxRetries none rest) ?_ fun _ => ih _ _
          intro w hw
          exact hw.of_eq rfl rfl rfl rfl
      | false =>
        refine Triple.bind (Q := fun _ w => Batch sha256 cfg.maxRetries none rest w ∧ ¬ Final w.log item.id)
          ?_ fun _ => ?_
        · intro w hw
          refine ⟨hw.send _ _ (by simp) (by simp [SendOutcome.isFinal, SendOutcome.isFatal]), fun hfin => ?_⟩
          rcases sent_snoc_send.mp hfin with hfin | ⟨-, hfinal⟩
          · exact hw.unsent.pending item (List.mem_cons_self ..) hfin
          · cases hfinal
        refine Triple.bind (Q := fun _ w => Batch sha256 cfg.maxRetries none rest w ∧ ¬ Final w.log item.id)
          ?_ fun _ => ?_
        · intro w hw
          exact ⟨hw.1.of_eq rfl rfl rfl rfl, hw.2⟩
        refine Triple.bind (triple_markFailed hm item hnot reason) fun reply => ?_
        cases reply with
        | error e =>
          refine Triple.bind ((triple_stageRequeue _).pre ?_) fun _ => Triple.pure fun w hw => hw
          intro w hw
          exact hw.holding
        | ok x =>
          refine Triple.ite (fun _ => ?_) fun _ => ih _ _
          refine Triple.bind (Q := fun _ => Batch sha256 cfg.maxRetries none rest) ?_ fun _ => ih _ _
          intro w hw
          exact hw.of_eq rfl rfl rfl rfl

/-- The claimed rows are unsent: a row with a final result is not queued. -/
theorem triple_dequeue (hm : 0 < maxRetries) (limit : ℤ) :
    Triple (Clear sha256 maxRetries) (call sha256 qcfg env fun now => .dequeue limit now) fun reply w =>
      match reply with
      | .ok (.items items) => Batch sha256 maxRetries none items w
      | _ => Clear sha256 maxRetries w := by
  refine triple_call (Holding.stable hm) ?_
  intro w now n hw
  have hp : Permitted maxRetries none w.log (.dequeue limit now) := trivial
  have hw' : Clear sha256 maxRetries (w.endCall sha256 qcfg (.dequeue limit now) (env n).fault).2 :=
    hw.endCall hm hp (env n).fault
  rcases hreply : (w.endCall sha256 qcfg (.dequeue limit now) (env n).fault).1 with e | x
  · exact hw'
  cases x with
  | id i => exact hw'
  | done => exact hw'
  | count k => exact hw'
  | items items =>
    obtain ⟨hok, hq⟩ := endCall_ok hreply
    obtain ⟨hnodup, hclaimed, -⟩ := dequeue_items hw.safe.inv hok
    refine ⟨hw', hnodup, ?_, ?_, ?_⟩
    · intro item hitem hfin
      obtain ⟨r, -, -, -, hafter⟩ := hclaimed item hitem
      rw [← hq] at hafter
      -- a final row would not be uploading without a staged write
      rcases hw'.safe.settled item.id _ hfin hafter with h | h | ⟨-, p, hp, -⟩
      · cases h
      · cases h
      · cases hp
    · intro item hitem
      obtain ⟨r, -, -, -, hafter⟩ := hclaimed item hitem
      rw [← hq] at hafter
      exact id_le_lastId hw'.safe.inv hafter
    · intro item hitem r hr
      obtain ⟨s, -, -, -, hafter⟩ := hclaimed item hitem
      rw [← hq, hr] at hafter
      rw [Option.some.inj hafter]
      rfl

theorem triple_tick (hm : 0 < cfg.maxRetries) :
    Triple (Idle sha256 cfg.maxRetries) (tick sha256 qcfg cfg env decorateResume)
      fun _ => Idle sha256 cfg.maxRetries := by
  have hbody : Triple (Idle sha256 cfg.maxRetries) (tickBody sha256 qcfg cfg env decorateResume)
      fun _ => Idle sha256 cfg.maxRetries := by
    refine Triple.bind (triple_recoverPending hm) fun err => ?_
    cases err with
    | some e => exact Triple.pure fun w hw => hw
    | none =>
      refine Triple.bind (triple_dequeue hm _) fun reply => ?_
      rcases reply with e | x
      · exact Triple.pure fun w hw => Clear.idle hw
      cases x with
      | items items =>
        refine Triple.ite (fun _ => Triple.pure fun w hw => Clear.idle hw.holding) fun _ => ?_
        exact triple_tickLoop hm items 0 items false
      | id i => exact Triple.pure fun w hw => Clear.idle hw
      | done => exact Triple.pure fun w hw => Clear.idle hw
      | count k => exact Triple.pure fun w hw => Clear.idle hw
  refine Triple.bind hbody fun out => ?_
  intro w hw
  exact hw.mark (fun _ => trivial) (by simp [Sent])

/-! ### Whole runs -/

theorem Idle.of_eq {w w' : World} (hw : Idle sha256 maxRetries w) (hq : w'.replayer.queue = w.replayer.queue)
    (hl : w'.log = w.log) (ht : w'.replayer.pendingTerminal = w.replayer.pendingTerminal) :
    Idle sha256 maxRetries w' := by
  unfold Idle at hw ⊢
  rw [ht]
  exact hw.of_eq hq hl

theorem Idle.endCall {w : World} (hw : Idle sha256 maxRetries w) (hm : 0 < maxRetries) {op : QueueOp}
    (hp : Permitted maxRetries w.replayer.pendingTerminal w.log op) (fault : Fault) :
    Idle sha256 maxRetries (w.endCall sha256 qcfg op fault).2 := by
  have hholding : Holding sha256 maxRetries w.replayer.pendingTerminal w.replayer.pendingTerminal
      w.replayer.pendingRequeue w := ⟨hw, rfl, rfl⟩
  have hw' : Holding sha256 maxRetries w.replayer.pendingTerminal w.replayer.pendingTerminal
      w.replayer.pendingRequeue (w.endCall sha256 qcfg op fault).2 := hholding.endCall hm hp fault
  unfold Idle
  rw [hw'.terminal]
  exact hw'.safe

theorem Idle.stable (hm : 0 < maxRetries) : Stable sha256 qcfg (Idle sha256 maxRetries) where
  enqueue := by
    intro w x hw
    have hp : Permitted maxRetries w.replayer.pendingTerminal w.log (.enqueue x.1 x.2.1 x.2.2) := trivial
    exact hw.endCall hm hp .none
  next := by
    intro w n hw
    exact hw.of_eq rfl rfl rfl

theorem triple_chooseIdle (hm : 0 < maxRetries) :
    Triple (Idle sha256 maxRetries) (choose sha256 qcfg env) fun _ => Idle sha256 maxRetries :=
  (triple_choose (Idle.stable hm)).weaken fun _ _ h => h.1

theorem triple_modifyIdle {f : Replayer → Replayer} (hq : ∀ r, (f r).queue = r.queue)
    (ht : ∀ r, (f r).pendingTerminal = r.pendingTerminal) :
    Triple (Idle sha256 maxRetries) (modifyReplayer f) fun _ => Idle sha256 maxRetries := by
  intro w hw
  exact hw.of_eq (hq _) rfl (ht _)

theorem triple_startRun (hm : 0 < maxRetries) :
    Triple (Idle sha256 maxRetries) (startRun sha256 qcfg cfg env) fun _ => Idle sha256 maxRetries := by
  refine Triple.bind (triple_recoverPending hm) fun err => ?_
  cases err with
  | some e =>
    refine Triple.bind (triple_modifyIdle (fun _ => rfl) fun _ => rfl) fun _ => ?_
    exact Triple.pure fun w hw => hw
  | none =>
    have hcall : Triple (Clear sha256 maxRetries) (call sha256 qcfg env fun _ => .reclaimUploading)
        fun _ => Clear sha256 maxRetries := by
      refine triple_call (Holding.stable hm) ?_
      intro w now n hw
      have hp : Permitted maxRetries none w.log .reclaimUploading := rfl
      exact hw.endCall hm hp (env n).fault
    refine Triple.bind (hcall.weaken fun _ _ h => Clear.idle h) fun _ => ?_
    refine Triple.bind (triple_chooseIdle hm) fun _ => ?_
    refine Triple.bind (triple_modifyIdle (fun _ => rfl) fun _ => rfl) fun _ => ?_
    exact Triple.pure fun w hw => hw

theorem triple_pruneIfDue (hm : 0 < maxRetries) :
    Triple (Idle sha256 maxRetries) (pruneIfDue sha256 qcfg cfg env) fun _ => Idle sha256 maxRetries := by
  refine Triple.bind (triple_chooseIdle hm) fun c => Triple.get_bind fun s hs => ?_
  cases s.replayer.running with
  | none =>
    refine Triple.pure ?_
    rintro w rfl
    exact hs
  | some l =>
    have hidle : ∀ w, w = s → Idle sha256 maxRetries w := by
      rintro w rfl
      exact hs
    refine Triple.ite (fun _ => Triple.pre ?_ hidle) fun _ => Triple.pure hidle
    have hcall : Triple (Idle sha256 maxRetries) (call sha256 qcfg env fun cutoff => .prune cutoff)
        fun _ => Idle sha256 maxRetries := by
      refine triple_call (Idle.stable hm) ?_
      intro w cutoff n hw
      have hp : Permitted maxRetries w.replayer.pendingTerminal w.log (.prune cutoff) := trivial
      exact hw.endCall hm hp (env n).fault
    refine Triple.bind hcall fun _ => Triple.bind (triple_chooseIdle hm) fun _ => ?_
    exact triple_modifyIdle (fun _ => rfl) fun _ => rfl

theorem triple_iterate (hm : 0 < cfg.maxRetries) :
    Triple (Idle sha256 cfg.maxRetries) (iterate sha256 qcfg cfg env decorateResume)
      fun _ => Idle sha256 cfg.maxRetries := by
  have hstop : Triple (Idle sha256 cfg.maxRetries) stop fun _ => Idle sha256 cfg.maxRetries :=
    triple_modifyIdle (fun _ => rfl) fun _ => rfl
  have hlocals : ∀ f, Triple (Idle sha256 cfg.maxRetries) (setLocals f) fun _ => Idle sha256 cfg.maxRetries :=
    fun f => triple_modifyIdle (fun _ => rfl) fun _ => rfl
  refine Triple.bind (triple_chooseIdle hm) fun _ => Triple.ite (fun _ => hstop) fun _ => ?_
  refine Triple.bind (triple_modifyIdle (fun _ => rfl) fun _ => rfl) fun _ => ?_
  refine Triple.bind (triple_recoverPending hm) fun err => ?_
  cases err with
  | some e =>
    exact Triple.bind (triple_chooseIdle hm) fun _ => Triple.ite (fun _ => hstop) fun _ => hlocals _
  | none =>
    refine Triple.pre ?_ fun w hw => Clear.idle hw
    refine Triple.bind (triple_chooseIdle hm) fun _ => Triple.ite (fun _ => hstop) fun _ => ?_
    refine Triple.bind (triple_chooseIdle hm) fun _ => Triple.ite (fun _ => hlocals _) fun _ => ?_
    refine Triple.bind (triple_chooseIdle hm) fun _ => Triple.ite (fun _ => ?_) fun _ => ?_
    · exact Triple.bind (triple_modifyIdle (fun _ => rfl) fun _ => rfl) fun _ => hlocals _
    · refine Triple.bind (triple_tick hm) fun out => ?_
      refine Triple.bind (triple_chooseIdle hm) fun _ => Triple.ite (fun _ => hstop) fun _ => ?_
      refine Triple.ite (fun _ => ?_) fun _ => ?_
      · exact Triple.bind (hlocals _) fun _ => triple_pruneIfDue hm
      · exact Triple.bind (hlocals _) fun _ => triple_pruneIfDue hm

end Program

theorem newConfig_maxRetries_pos (cfg : ReplayConfig) : 0 < (newConfig cfg).maxRetries := by
  simp only [newConfig]
  split_ifs <;> omega

theorem step_idle {sha256 : Bytes → Bytes} {qcfg : QueueConfig} {cfg : ReplayConfig}
    {decorateResume : Bytes → Bytes} (hm : 0 < cfg.maxRetries) {w : World} (hw : Idle sha256 cfg.maxRetries w)
    (op : ReplayOp) : Idle sha256 cfg.maxRetries (w.step sha256 qcfg cfg decorateResume op) := by
  have hzero : Idle sha256 cfg.maxRetries w.rewind := hw.of_eq rfl rfl rfl
  unfold World.step
  split
  · exact triple_startRun hm _ hzero
  · exact triple_iterate hm _ hzero
  · exact hw

theorem run_idle (sha256 : Bytes → Bytes) (qcfg : QueueConfig) (cfg : ReplayConfig)
    (decorateResume : Bytes → Bytes) {q : Queue} (hq : q.Inv sha256) (ops : List ReplayOp) :
    Idle sha256 (newConfig cfg).maxRetries
      ((replayMachine sha256 qcfg cfg decorateResume).run (World.new q) ops) := by
  refine (replayMachine sha256 qcfg cfg decorateResume).run_invariant
    (P := Idle sha256 (newConfig cfg).maxRetries)
    (fun w op hw => step_idle (newConfig_maxRetries_pos cfg) hw op) (World.new q) ops ?_
  refine ⟨hq, ?_, ?_, ?_, ?_⟩
  · exact everywhere_nil
  · rintro id ⟨taskId, payload, o, hmem, -⟩
    cases hmem
  · rintro id r ⟨taskId, payload, o, hmem, -⟩
    cases hmem
  · intro p hp
    cases hp

/-- In every run of a replayer, with any failures of the queue calls: after an
acknowledgement or a fatal rejection `Send` is not called again for the row; a
call makes a row uploaded only after an acknowledgement, and dropped only after
a fatal rejection or as the `MarkFailed` that exhausts its retries. -/
theorem replay_never_resends_final (sha256 : Bytes → Bytes) (qcfg : QueueConfig) (cfg : ReplayConfig)
    (decorateResume : Bytes → Bytes) (calls : List QueueCall) (ops : List ReplayOp) :
    let w := (replayMachine sha256 qcfg cfg decorateResume).run
      (World.new ((queueMachine sha256 qcfg).run Queue.empty calls)) ops
    (∀ pre id taskId payload o post, w.log = pre ++ .send id taskId payload o :: post → o.isFinal = true →
      ∀ taskId' payload' o', ReplayEvent.send id taskId' payload' o' ∉ post) ∧
    (∀ pre op reply before after post, w.log = pre ++ .call op reply before after :: post →
      ∀ id r, after.row id = some r →
        (r.status = .uploaded → (∀ s, before.row id = some s → s.status ≠ .uploaded) → Acked pre id) ∧
        (r.status = .dropped → (∀ s, before.row id = some s → s.status ≠ .dropped) →
          Rejected pre id ∨ ∃ reason now, op = .markFailed id reason (newConfig cfg).maxRetries now ∧
            (newConfig cfg).maxRetries ≤ r.retryCount)) := by
  intro w
  have hq := run_inv qcfg (Queue.inv_empty sha256) calls
  have hlawful : Lawful (newConfig cfg).maxRetries w.log := (run_idle sha256 qcfg cfg decorateResume hq ops).lawful
  refine ⟨?_, ?_⟩
  · intro pre id taskId payload o post hlog hfinal taskId' payload' o' hmem
    obtain ⟨mid, post', rfl⟩ := List.append_of_mem hmem
    have hlegal := hlawful (pre ++ .send id taskId payload o :: mid) (.send id taskId' payload' o') post'
      (by rw [hlog]; simp)
    exact hlegal ⟨taskId, payload, o, by simp, hfinal⟩
  · intro pre op reply before after post hlog id r hr
    obtain ⟨hup, hdrop⟩ := hlawful pre (.call op reply before after) post hlog id r hr
    refine ⟨fun hst hnew => ?_, fun hst hnew => ?_⟩
    · rcases hup hst with ⟨s, hs, hsst⟩ | h
      · exact absurd hsst (hnew s hs)
      · exact h
    · rcases hdrop hst with ⟨s, hs, hsst⟩ | h
      · exact absurd hsst (hnew s hs)
      · exact h

end AgentWorkflow.VmAgent
