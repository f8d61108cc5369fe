import AgentWorkflow.VmAgent.ReplayRecovery

/-!
# The order of first deliveries

While failing queue calls have no effect, a row that was not sent yet has a
larger id than every row that was. Rows are put back in four ways, and the
invariant does not see how: it speaks of the rows that are still queued or
uploading, and of the part of the batch that is still to come.
-/

namespace AgentWorkflow.VmAgent
open AgentWorkflow.Lib

def attempt (ids : List ℤ) : ReplayEvent → List ℤ
  | .send id _ _ _ => if id ∈ ids then ids else ids ++ [id]
  | _ => ids

/-- The rows in the order of their first `Send`. -/
def firstAttempts (h : List ReplayEvent) : List ℤ := h.foldl attempt []

/-- The id an `Enqueue` answered, when it inserted the row. -/
def createdId : ReplayEvent → Option ℤ
  | .call (.enqueue _ _ _) (.ok (.id i)) before _ => if before.row i = none then some i else none
  | _ => none

/-- The rows in the order in which they were enqueued. -/
def createdIds (h : List ReplayEvent) : List ℤ := h.filterMap createdId

theorem firstAttempts_snoc (h : List ReplayEvent) (e : ReplayEvent) :
    firstAttempts (h ++ [e]) = attempt (firstAttempts h) e := by
  simp [firstAttempts]

theorem createdIds_snoc (h : List ReplayEvent) (e : ReplayEvent) :
    createdIds (h ++ [e]) = createdIds h ++ (createdId e).toList := by
  rw [createdIds, List.filterMap_append]
  cases he : createdId e <;> simp [createdIds, he]

/-- Not uploaded and not dropped. -/
def Row.Live (r : Row) : Prop := r.status = .queued ∨ r.status = .uploading

/-! ### The order -/

/-- `tried` are the rows sent so far and `made` those enqueued so far, in order;
`rest` is the part of the batch that is still to come. Ids up to `start` were
given out before the log begins. -/
structure Ordered (sha256 : Bytes → Bytes) (start : ℤ) (q : Queue) (tried made rest : List ℤ) : Prop where
  inv : q.Inv sha256
  started : start ≤ q.lastId
  first : tried.Pairwise (· < ·)
  known : ∀ a ∈ tried, a ≤ q.lastId
  passed : ∀ id r, q.row id = some r → r.Live → ∀ a ∈ tried, id < a → id ∈ tried
  batch : rest.Pairwise (· < ·)
  claimed : ∀ i ∈ rest, i ≤ q.lastId
  due : ∀ i ∈ rest, ∀ a ∈ tried, i < a → i ∈ tried
  left : ∀ id r, q.row id = some r → r.Live → ∀ i ∈ rest, id < i → id ∈ tried ∨ id ∈ rest
  created : made.Pairwise (· < ·)
  creation : ∀ i ∈ made, start < i ∧ i ≤ q.lastId

/-- No call brings a row back; a row that is new has a new id. -/
theorem StepRow.live {cfg : QueueConfig} {q : Queue} {op : QueueOp} {reply : Except QueueError Reply} {id : ℤ}
    {before : Option Row} {r' : Row} (hs : StepRow cfg q op reply id before (some r')) (hl : r'.Live) :
    (∃ r, before = some r ∧ r.Live) ∨ q.lastId < id := by
  cases hs with
  | same => exact Or.inl ⟨r', rfl, hl⟩
  | create r _ _ _ _ _ hnew _ => exact Or.inr (by omega)
  | claim r _ _ _ _ hq => exact Or.inl ⟨r, rfl, Or.inl hq⟩
  | upload r _ _ _ hlive => exact Or.inl ⟨r, rfl, hlive.symm⟩
  | fail r _ _ _ _ _ hlive => exact Or.inl ⟨r, rfl, hlive.symm⟩
  | drop r _ _ _ _ hlive => exact Or.inl ⟨r, rfl, hlive.symm⟩
  | release r _ _ _ hup => exact Or.inl ⟨r, rfl, Or.inr hup⟩

section Steps
variable {sha256 : Bytes → Bytes} {qcfg : QueueConfig} {start : ℤ} {q : Queue} {tried made rest : List ℤ}

/-- The rest of a batch may be given up. -/
theorem Ordered.giveUp (hw : Ordered sha256 start q tried made rest) : Ordered sha256 start q tried made [] :=
  { hw with batch := List.Pairwise.nil, claimed := by simp, due := by simp, left := by simp }

/-- What is live after a call was live before it or is new. -/
theorem Ordered.exec (hw : Ordered sha256 start q tried made rest) (op : QueueOp) :
    Ordered sha256 start (op.exec sha256 qcfg q).2 tried made rest := by
  have hlast : q.lastId ≤ (op.exec sha256 qcfg q).2.lastId := exec_lastId_le hw.inv op
  have hrows : ∀ id r', (op.exec sha256 qcfg q).2.row id = some r' → r'.Live →
      (∃ r, q.row id = some r ∧ r.Live) ∨ q.lastId < id := by
    intro id r' hr' hl
    have hs : StepRow qcfg _ _ _ id _ _ := stepRow hw.inv op id
    rw [hr'] at hs
    exact hs.live hl
  refine ⟨exec_inv qcfg hw.inv op, hw.started.trans hlast, hw.first, ?_, ?_, hw.batch, ?_, hw.due, ?_, hw.created, ?_⟩
  · exact fun a ha => (hw.known a ha).trans hlast
  · intro id r' hr' hl a ha hlt
    rcases hrows id r' hr' hl with ⟨r, hr, hlive⟩ | hnew
    · exact hw.passed id r hr hlive a ha hlt
    · have hold := hw.known a ha
      omega
  · exact fun i hi => (hw.claimed i hi).trans hlast
  · intro id r' hr' hl i hi hlt
    rcases hrows id r' hr' hl with ⟨r, hr, hlive⟩ | hnew
    · exact hw.left id r hr hlive i hi hlt
    · have hold := hw.claimed i hi
      omega
  · exact fun i hi => ⟨(hw.creation i hi).1, (hw.creation i hi).2.trans hlast⟩

/-- An `Enqueue` that inserts takes an id behind all those before it. -/
theorem createdId_exec (hq : q.Inv sha256) {op : QueueOp} {q' : Queue} {i : ℤ}
    (h : createdId (.call op (op.exec sha256 qcfg q).1 q q') = some i) :
    q.lastId < i ∧ i ≤ (op.exec sha256 qcfg q).2.lastId := by
  cases op with
  | enqueue taskId payload now =>
    rcases q.enqueue_cases sha256 taskId payload now with ⟨e, he⟩ | ⟨r, hr, -, -, he⟩ | ⟨-, he⟩
    · simp [QueueOp.exec, he, Except.map, createdId] at h
    · simp [QueueOp.exec, he, Except.map, createdId, Queue.row_of_mem hq hr] at h
    · simp only [QueueOp.exec, he, Prod.map_fst, Except.map, createdId, Option.ite_none_right_eq_some,
        Option.some.injEq] at h
      simp only [QueueOp.exec, he, Prod.map_snd, id_eq]
      omega
  | _ => simp [createdId] at h

theorem Ordered.make (hw : Ordered sha256 start q tried made rest) {op : QueueOp} {q' : Queue} {i : ℤ}
    (h : createdId (.call op (op.exec sha256 qcfg q).1 q q') = some i) :
    Ordered sha256 start (op.exec sha256 qcfg q).2 tried (made ++ [i]) rest := by
  obtain ⟨hnew, hle⟩ := createdId_exec hw.inv h
  have hw' : Ordered sha256 start (op.exec sha256 qcfg q).2 tried made rest := hw.exec op
  refine { hw' with created := ?_, creation := ?_ }
  · rw [List.pairwise_append]
    refine ⟨hw.created, List.pairwise_singleton .., fun j hj k hk => ?_⟩
    rw [List.mem_singleton.mp hk]
    have hold := (hw.creation j hj).2
    omega
  · intro j hj
    rcases List.mem_append.mp hj with hj | hj
    · exact hw'.creation j hj
    · rw [List.mem_singleton.mp hj]
      have hstart := hw.started
      exact ⟨by omega, hle⟩

/-- The next row of the batch is sent: what is live below it was sent before. -/
theorem Ordered.send {i : ℤ} (hw : Ordered sha256 start q tried made (i :: rest)) {tried' : List ℤ}
    (htried : tried' = if i ∈ tried then tried else tried ++ [i]) : Ordered sha256 start q tried' made rest := by
  obtain ⟨hahead, hbatch⟩ := List.pairwise_cons.mp hw.batch
  have hmem : ∀ a, a ∈ tried' ↔ a ∈ tried ∨ a = i := by
    intro a
    rw [htried]
    split_ifs with hi
    · constructor
      · exact Or.inl
      · rintro (h | rfl)
        · exact h
        · exact hi
    · simp
  refine ⟨hw.inv, hw.started, ?_, ?_, ?_, hbatch, ?_, ?_, ?_, hw.created, hw.creation⟩
  · rw [htried]
    split_ifs with hi
    · exact hw.first
    · rw [List.pairwise_append]
      refine ⟨hw.first, List.pairwise_singleton .., fun a ha j hj => ?_⟩
      rw [List.mem_singleton.mp hj]
      by_contra hle
      rcases lt_or_eq_of_le (not_lt.mp hle) with hlt | rfl
      · exact hi (hw.due i (List.mem_cons_self ..) a ha hlt)
      · exact hi ha
  · intro a ha
    rcases (hmem a).mp ha with ha | rfl
    · exact hw.known a ha
    · exact hw.claimed a (List.mem_cons_self ..)
  · intro id r hr hl a ha hlt
    rw [hmem]
    rcases (hmem a).mp ha with ha | rfl
    · exact Or.inl (hw.passed id r hr hl a ha hlt)
    · rcases hw.left id r hr hl a (List.mem_cons_self ..) hlt with h | h
      · exact Or.inl h
      rcases List.mem_cons.mp h with h | h
      · exact Or.inr h
      · have hgt := hahead id h
        omega
  · exact fun j hj => hw.claimed j (List.mem_cons_of_mem _ hj)
  · intro j hj a ha hlt
    rw [hmem]
    rcases (hmem a).mp ha with ha | rfl
    · exact Or.inl (hw.due j (List.mem_cons_of_mem _ hj) a ha hlt)
    · have hgt := hahead j hj
      omega
  · intro id r hr hl j hj hlt
    rw [hmem]
    rcases hw.left id r hr hl j (List.mem_cons_of_mem _ hj) hlt with h | h
    · exact Or.inl (Or.inl h)
    rcases List.mem_cons.mp h with h | h
    · exact Or.inl (Or.inr h)
    · exact Or.inr h

/-- A batch takes the queued rows with the smallest ids, so when none is
uploading, what is live below a claimed row is claimed too. -/
theorem Ordered.claim (hw : Ordered sha256 start q tried made []) {limit : ℤ} {now : ℚ} {items : List QueuedItem}
    (hidle : ∀ id r, q.row id = some r → r.status ≠ .uploading)
    (hok : ((QueueOp.dequeue limit now).exec sha256 qcfg q).1 = .ok (.items items)) :
    Ordered sha256 start q tried made (items.map QueuedItem.id) := by
  simp only [QueueOp.exec, Queue.dequeue_eq, Prod.map_fst, Except.map, Except.ok.injEq, Reply.items.injEq] at hok
  have hids : items.map QueuedItem.id = (q.nextQueued limit).map Row.id := by
    rw [← hok, List.map_map]
    rfl
  have hrow : ∀ i ∈ (q.nextQueued limit).map Row.id, ∃ r ∈ q.nextQueued limit, r.id = i ∧ q.row i = some r ∧ r.Live := by
    intro i hi
    obtain ⟨r, hr, rfl⟩ := List.mem_map.mp hi
    obtain ⟨hmem, hqueued⟩ := Queue.mem_nextQueued hr
    exact ⟨r, hr, rfl, Queue.row_of_mem hw.inv hmem, Or.inl hqueued⟩
  rw [hids]
  refine { hw with batch := nextQueued_sorted hw.inv limit, claimed := ?_, due := ?_, left := ?_ }
  · intro i hi
    obtain ⟨r, -, rfl, hr, -⟩ := hrow i hi
    exact hw.inv.bound r (Queue.row_mem hr).1
  · intro i hi a ha hlt
    obtain ⟨r, -, rfl, hr, hlive⟩ := hrow i hi
    exact hw.passed _ r hr hlive a ha hlt
  · intro id s hs hl i hi hlt
    obtain ⟨r, hr, rfl, -, -⟩ := hrow i hi
    obtain ⟨hmem, rfl⟩ := Queue.row_mem hs
    right
    by_contra hnot
    have hqueued : s.status = .queued := hl.resolve_right (hidle _ s hs)
    have hout : s ∉ q.nextQueued limit := fun hin => hnot (List.mem_map_of_mem hin)
    have hle : Queue.byId r s := Table.select_take_before hr hmem (by simp [Queue.isQueued, hqueued]) hout
    have hle' : r.id ≤ s.id := hle
    omega

end Steps

/-! ### The program -/

namespace Order

def InOrder (sha256 : Bytes → Bytes) (start : ℤ) (rest : List ℤ) (w : World) : Prop :=
  Ordered sha256 start w.replayer.queue (firstAttempts w.log) (createdIds w.log) rest

variable {sha256 : Bytes → Bytes} {qcfg : QueueConfig} {cfg : ReplayConfig} {env : ℕ → Choice}
  {decorateResume : Bytes → Bytes} {start : ℤ} {rest : List ℤ} {w : World}

theorem InOrder.note (hw : InOrder sha256 start rest w) {e : ReplayEvent} (hattempt : ∀ ids, attempt ids e = ids)
    (hcreated : createdId e = none) : InOrder sha256 start rest (w.record e) := by
  unfold InOrder
  rw [World.record, firstAttempts_snoc, hattempt, createdIds_snoc, hcreated, Option.toList_none, List.append_nil]
  exact hw

theorem InOrder.endCall (hw : InOrder sha256 start rest w) (op : QueueOp) (fault : Fault) :
    InOrder sha256 start rest (w.endCall sha256 qcfg op fault).2 := by
  have hexec : InOrder sha256 start rest (w.setQueue (op.exec sha256 qcfg w.replayer.queue).2) := hw.exec op
  rcases @endCall_cases sha256 qcfg w op fault with ⟨-, -, h⟩ | ⟨e, -, h⟩ | ⟨e, -, h⟩
  · rw [h]
    cases hc : createdId (.call op (op.exec sha256 qcfg w.replayer.queue).1 w.replayer.queue
        (op.exec sha256 qcfg w.replayer.queue).2) with
    | none => exact hexec.note (fun _ => rfl) hc
    | some i =>
      unfold InOrder
      rw [World.record, firstAttempts_snoc, createdIds_snoc, hc]
      exact hw.make hc
  · rw [h]
    exact hw.note (fun _ => rfl) (by cases op <;> rfl)
  · rw [h]
    exact hexec.note (fun _ => rfl) (by cases op <;> rfl)

theorem InOrder.of_eq {w' : World} (hw : InOrder sha256 start rest w) (hq : w'.replayer.queue = w.replayer.queue)
    (hl : w'.log = w.log) : InOrder sha256 start rest w' := by
  unfold InOrder
  rw [hq, hl]
  exact hw

theorem InOrder.robust : Robust sha256 qcfg (InOrder sha256 start rest) where
  call := fun _ op fault hw => hw.endCall op fault
  of_eq := fun hw hq hl => hw.of_eq hq hl
  recovered := fun _ _ hw => hw.note (fun _ => rfl) rfl
  ticked := fun _ _ hw => hw.note (fun _ => rfl) rfl

theorem InOrder.send {i : ℤ} (hw : InOrder sha256 start (i :: rest) w) (taskId payload : Bytes) (o : SendOutcome) :
    InOrder sha256 start rest (w.record (.send i taskId payload o)) := by
  have hids : createdIds (w.record (.send i taskId payload o)).log = createdIds w.log := by
    rw [World.record, createdIds_snoc]
    exact List.append_nil _
  unfold InOrder
  rw [hids, World.record, firstAttempts_snoc]
  exact Ordered.send hw rfl

theorem triple_modify {f : Replayer → Replayer} (hf : ∀ r, (f r).queue = r.queue) :
    Triple (InOrder sha256 start rest) (modifyReplayer f) fun _ => InOrder sha256 start rest := by
  intro w hw
  exact hw.of_eq (hf _) rfl

/-! ### One batch -/

theorem triple_requeueRest (ids : List ℤ) {a b : Bool} {err : QueueError → Option TickError} {err' : Option TickError} :
    Triple (InOrder sha256 start rest)
      (do
        match ← call sha256 qcfg env fun _ => .requeueUploading ids with
        | .error e =>
          stageRequeue ids
          return (a, err e)
        | .ok _ => return (b, err')) fun _ => InOrder sha256 start [] := by
  refine Triple.bind (InOrder.robust.triple_call _) fun reply => ?_
  cases reply with
  | error e => exact Triple.bind (triple_modify fun _ => rfl) fun _ => Triple.pure fun w hw => hw.giveUp
  | ok x => exact Triple.pure fun w hw => hw.giveUp

/-- The terminal write of the row in hand, and the rest of the batch after it. -/
theorem triple_finish (p : PendingTerminal) (ids : List ℤ) (kind : TerminalKind) (err : QueueError → TickError)
    {next : Replay (Bool × Option TickError)}
    (hnext : Triple (InOrder sha256 start rest) next fun _ => InOrder sha256 start []) :
    Triple (InOrder sha256 start rest)
      (do
        match ← applyTerminal sha256 qcfg env p with
        | .error e =>
          stageTerminal p ids
          return (true, some (err e))
        | .ok _ =>
          modifyReplayer fun r => { r with metrics := countTerminal kind r.metrics }
          next) fun _ => InOrder sha256 start [] := by
  refine Triple.bind (InOrder.robust.triple_call _) fun reply => ?_
  cases reply with
  | error e => exact Triple.bind (triple_modify fun _ => rfl) fun _ => Triple.pure fun w hw => hw.giveUp
  | ok x => exact Triple.bind (triple_modify fun _ => rfl) fun _ => hnext

theorem triple_tickLoop (items : List QueuedItem) (index : ℕ) (rest : List QueuedItem) (anyFailed : Bool) :
    Triple (InOrder sha256 start (rest.map QueuedItem.id))
      (tickLoop sha256 qcfg cfg env decorateResume items index rest anyFailed) fun _ => InOrder sha256 start [] := by
  induction rest generalizing index anyFailed with
  | nil => exact Triple.pure fun w hw => hw
  | cons item rest ih =>
    unfold tickLoop
    refine Triple.bind InOrder.robust.choose fun c => Triple.ite (fun _ => triple_requeueRest _) fun _ => ?_
    refine Triple.bind InOrder.robust.choose fun c => Triple.ite (fun _ => triple_requeueRest _) fun _ => ?_
    refine Triple.bind InOrder.robust.choose fun c => ?_
    refine Triple.bind (Q := fun _ => InOrder sha256 start (rest.map QueuedItem.id)) ?_ fun _ => ?_
    · intro w hw
      exact InOrder.send hw _ _ _
    cases ho : c.send with
    | ok => exact triple_finish _ _ _ _ (ih _ _)
    | failed reason fatal =>
      cases fatal with
      | true => exact triple_finish _ _ _ _ (ih _ _)
      | false =>
        refine Triple.bind (triple_modify fun _ => rfl) fun _ => ?_
        refine Triple.bind (InOrder.robust.triple_call _) fun reply => ?_
        cases reply with
        | error e => exact Triple.bind (triple_modify fun _ => rfl) fun _ => Triple.pure fun w hw => hw.giveUp
        | ok x =>
          refine Triple.ite (fun _ => ?_) fun _ => ih _ _
          exact Triple.bind (triple_modify fun _ => rfl) fun _ => ih _ _

/-! ### Whole runs -/

/-- Nothing is lost track of, and the rows were sent in order. -/
def Steady (sha256 : Bytes → Bytes) (start : ℤ) (w : World) : Prop :=
  Recovery.Settled sha256 w ∧ InOrder sha256 start [] w

theorem triple_dequeue (limit : ℤ) :
    Triple (fun w => Recovery.Clear sha256 w ∧ InOrder sha256 start [] w)
      (call sha256 qcfg env fun now => .dequeue limit now) fun reply w =>
        match reply with
        | .ok (.items items) => InOrder sha256 start (items.map QueuedItem.id) w
        | _ => InOrder sha256 start [] w := by
  refine triple_call ⟨?_, ?_⟩ ?_
  · intro w x hw
    exact ⟨Recovery.Keeping.stable.enqueue w x hw.1, InOrder.robust.stable.enqueue w x hw.2⟩
  · intro w n hw
    exact ⟨⟨hw.1.tidy.of_eq rfl rfl, hw.1.pending, hw.1.back⟩, hw.2.of_eq rfl rfl⟩
  · intro w now n hw
    cases hreply : (w.endCall sha256 qcfg (.dequeue limit now) (env n).fault).1 with
    | error e => exact hw.2.endCall _ _
    | ok x =>
      cases x with
      | items items =>
        have hidle : ∀ id r, w.replayer.queue.row id = some r → r.status ≠ .uploading := by
          intro id r hr hup
          rcases hw.1.tidy.uploading id r hr hup with h | h <;> cases h
        have hclaim : InOrder sha256 start (items.map QueuedItem.id) w :=
          Ordered.claim hw.2 hidle (endCall_ok hreply).1
        exact hclaim.endCall _ _
      | id i => exact hw.2.endCall _ _
      | done => exact hw.2.endCall _ _
      | count k => exact hw.2.endCall _ _

theorem triple_tick (henv : Recovery.NoEffect env) :
    Triple (Steady sha256 start) (tick sha256 qcfg cfg env decorateResume) fun _ => Steady sha256 start := by
  have hbody : Triple (Steady sha256 start) (tickBody sha256 qcfg cfg env decorateResume)
      fun _ => InOrder sha256 start [] := by
    refine Triple.bind ((Recovery.triple_recoverPending henv).both InOrder.robust.recoverPending) fun err => ?_
    cases err with
    | some e => exact Triple.pure fun w hw => hw.2
    | none =>
      refine Triple.bind (triple_dequeue _) fun reply => ?_
      rcases reply with e | x
      · exact Triple.pure fun w hw => hw
      cases x with
      | items items =>
        refine Triple.ite (fun hnil => Triple.pure fun w hw => hw.giveUp) fun _ => ?_
        exact triple_tickLoop items 0 items false
      | id i => exact Triple.pure fun w hw => hw
      | done => exact Triple.pure fun w hw => hw
      | count k => exact Triple.pure fun w hw => hw
  have htick : Triple (Steady sha256 start) (tick sha256 qcfg cfg env decorateResume)
      fun _ => InOrder sha256 start [] := by
    refine Triple.bind hbody fun out => ?_
    intro w hw
    exact hw.note (fun _ => rfl) rfl
  have hsettled : Triple (Recovery.Settled sha256) (tick sha256 qcfg cfg env decorateResume)
      fun _ => Recovery.Settled sha256 := Recovery.triple_tick henv
  intro w hw
  exact ⟨hsettled w hw.1, htick w hw⟩

theorem triple_chooseSteady : Triple (Steady sha256 start) (choose sha256 qcfg env) fun _ => Steady sha256 start :=
  Recovery.triple_chooseSettled.both InOrder.robust.choose

theorem triple_modifySteady {f : Replayer → Replayer} (hq : ∀ r, (f r).queue = r.queue)
    (ht : ∀ r, (f r).pendingTerminal = r.pendingTerminal) (hr : ∀ r, (f r).pendingRequeue = r.pendingRequeue) :
    Triple (Steady sha256 start) (modifyReplayer f) fun _ => Steady sha256 start :=
  (Recovery.triple_modifySettled hq ht hr).both (triple_modify hq)

theorem triple_iterate (henv : Recovery.NoEffect env) :
    Triple (Steady sha256 start) (iterate sha256 qcfg cfg env decorateResume) fun _ => Steady sha256 start := by
  have hstop : Triple (Steady sha256 start) stop fun _ => Steady sha256 start :=
    triple_modifySteady (fun _ => rfl) (fun _ => rfl) fun _ => rfl
  have hlocals : ∀ f, Triple (Steady sha256 start) (setLocals f) fun _ => Steady sha256 start :=
    fun f => triple_modifySteady (fun _ => rfl) (fun _ => rfl) fun _ => rfl
  have hprune : Triple (Steady sha256 start) (pruneIfDue sha256 qcfg cfg env) fun _ => Steady sha256 start :=
    (Recovery.triple_pruneIfDue henv).both InOrder.robust.pruneIfDue
  have hrecover : Triple (Steady sha256 start) (recoverPending sha256 qcfg env) fun _ => Steady sha256 start := by
    refine ((Recovery.triple_recoverPending henv).both InOrder.robust.recoverPending).weaken fun err w hw => ?_
    cases err with
    | some e => exact hw
    | none => exact ⟨Recovery.Clear.settled hw.1, hw.2⟩
  refine Triple.bind triple_chooseSteady fun _ => Triple.ite (fun _ => hstop) fun _ => ?_
  refine Triple.bind (triple_modifySteady (fun _ => rfl) (fun _ => rfl) fun _ => rfl) fun _ => ?_
  refine Triple.bind hrecover fun err => ?_
  cases err with
  | some e =>
    exact Triple.bind triple_chooseSteady fun _ => Triple.ite (fun _ => hstop) fun _ => hlocals _
  | none =>
    refine Triple.bind triple_chooseSteady fun _ => Triple.ite (fun _ => hstop) fun _ => ?_
    refine Triple.bind triple_chooseSteady fun _ => Triple.ite (fun _ => hlocals _) fun _ => ?_
    refine Triple.bind triple_chooseSteady fun _ => Triple.ite (fun _ => ?_) fun _ => ?_
    · exact Triple.bind (triple_modifySteady (fun _ => rfl) (fun _ => rfl) fun _ => rfl) fun _ => hlocals _
    · refine Triple.bind (triple_tick henv) fun out => ?_
      refine Triple.bind triple_chooseSteady fun _ => Triple.ite (fun _ => hstop) fun _ => ?_
      refine Triple.ite (fun _ => ?_) fun _ => ?_
      · exact Triple.bind (hlocals _) fun _ => hprune
      · exact Triple.bind (hlocals _) fun _ => hprune

theorem step_steady (hw : Steady sha256 start w) (op : ReplayOp) (hop : Recovery.NoEffect op.env) :
    Steady sha256 start (w.step sha256 qcfg cfg decorateResume op) := by
  have hzero : Steady sha256 start w.rewind := ⟨hw.1.of_eq rfl rfl, hw.2.of_eq rfl rfl⟩
  unfold World.step
  split
  · exact ((Recovery.triple_startRun hop).both InOrder.robust.startRun) _ hzero
  · exact triple_iterate hop _ hzero
  · exact hw

/-- A replayer over a queue without a row of an interrupted batch. -/
theorem steady_new {q : Queue} (hq : q.Inv sha256) (hidle : ∀ r ∈ q.rows, r.status ≠ .uploading) :
    Steady sha256 q.lastId (World.new q) := by
  have hup : ∀ id r, q.row id = some r → r.status ≠ .uploading := fun id r hr => hidle r (Queue.row_mem hr).1
  constructor
  · have hfresh : Recovery.Fresh sha256 (World.new q) := ⟨hq, rfl, rfl, hup⟩
    exact hfresh.settled
  · exact ⟨hq, le_rfl, List.Pairwise.nil, by simp [firstAttempts, World.new], by simp [firstAttempts, World.new],
      List.Pairwise.nil, by simp, by simp, by simp, List.Pairwise.nil, by simp [createdIds, World.new]⟩

end Order

/-- In every run in which failing queue calls have no effect, with any other
calls of `Enqueue` in between, any failures of `Send` and any early ends of the
ticks: the rows are sent for the first time in the order of their ids, and the
ids grow in the order in which the rows were enqueued. -/
theorem first_sends_in_enqueue_order (sha256 : Bytes → Bytes) (qcfg : QueueConfig) (cfg : ReplayConfig)
    (decorateResume : Bytes → Bytes) (calls : List QueueCall) {q : Queue}
    (hq : q = (queueMachine sha256 qcfg).run Queue.empty calls) (hidle : ∀ r ∈ q.rows, r.status ≠ .uploading)
    {ops : List ReplayOp} (hfaults : ∀ op ∈ ops, ∀ n e, (op.env n).fault ≠ .applied e) :
    let w := (replayMachine sha256 qcfg cfg decorateResume).run (World.new q) ops
    (firstAttempts w.log).Pairwise (· < ·) ∧
    (createdIds w.log).Pairwise (· < ·) ∧ ∀ i ∈ createdIds w.log, ∀ r ∈ q.rows, r.id < i := by
  intro w
  have hinv : q.Inv sha256 := hq ▸ run_inv qcfg (Queue.inv_empty sha256) calls
  have hsteady : Order.Steady sha256 q.lastId w := by
    refine (replayMachine sha256 qcfg cfg decorateResume).history_invariant_of
      (P := fun _ w => Order.Steady sha256 q.lastId w) (G := fun op => Recovery.NoEffect op.env) ?_ ?_ ops hfaults
    · exact Order.steady_new hinv hidle
    · intro _ t op hop ht
      exact Order.step_steady ht op hop
  refine ⟨hsteady.2.first, hsteady.2.created, fun i hi r hr => ?_⟩
  have hold := hinv.bound r hr
  have hnew := (hsteady.2.creation i hi).1
  omega

/-- Two results are enqueued while `Run` starts, the first delivery of the first
one fails, and a third result comes in between. -/
def sampleDelivery : List ReplayOp :=
  [.start fun n => ⟨if n = 0 then [([1], [10], 0), ([2], [20], 0)] else [], .none, 0, false, true, true, .ok⟩,
   .iterate fun n => ⟨if n = 7 then [([3], [30], 0)] else [], .none, 0, false, true, true,
     if n = 7 then .failed [] false else .ok⟩,
   .iterate fun _ => ⟨[], .none, 0, false, true, true, .ok⟩]

theorem first_sends_in_enqueue_order_sample :
    let w := (replayMachine id ⟨5⟩ sampleConfig id).run (World.new Queue.empty) sampleDelivery
    firstAttempts w.log = [1, 2, 3] ∧
    ((firstAttempts w.log).Pairwise (· < ·) ∧
    (createdIds w.log).Pairwise (· < ·) ∧ ∀ i ∈ createdIds w.log, ∀ r ∈ Queue.empty.rows, r.id < i) := by
  have hfaults : ∀ op ∈ sampleDelivery, ∀ n e, (op.env n).fault ≠ .applied e := by
    simp [sampleDelivery, ReplayOp.env]
  refine ⟨by decide +kernel, ?_⟩
  exact first_sends_in_enqueue_order id ⟨5⟩ sampleConfig id [] rfl (by simp [Queue.empty]) hfaults

end AgentWorkflow.VmAgent
