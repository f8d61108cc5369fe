import AgentWorkflow.ControlPlane.EventStream

/-!
# Announcements and the table

A handler announces the status its transaction wrote, and announces every change
of status. Task ids are UUIDs, so a channel names one task.
-/

namespace AgentWorkflow.ControlPlane.EventStream
open AgentWorkflow.Lib AgentWorkflow.Lib.Calendar

/-! ### Channels -/

theorem ofText_injective : Function.Injective ofText := by
  apply List.map_injective_iff.mpr
  intro c d h
  have hlt : ∀ e : Char, e.toNat < 0x110000 := by
    intro e
    have hvalid := e.valid
    simp only [UInt32.isValidChar, Nat.isValidChar] at hvalid
    change e.val.toNat < 0x110000
    omega
  have hval := congrArg Fin.val h
  simp only [Fin.val_ofNat, Nat.mod_eq_of_lt (hlt c), Nat.mod_eq_of_lt (hlt d)] at hval
  exact Char.toNat_inj.mp hval

theorem split_at_last {α : Type} {x : α} {l l' r r' : List α} (hr : x ∉ r) (hr' : x ∉ r')
    (h : l ++ x :: r = l' ++ x :: r') : l = l' ∧ r = r' := by
  obtain ⟨m, hl, hm⟩ | ⟨m, hl, hm⟩ := List.append_eq_append_iff.mp h
  · cases m with
    | nil =>
      simp only [List.nil_append, List.cons.injEq, true_and] at hm
      exact ⟨by simpa using hl.symm, hm⟩
    | cons y m =>
      simp only [List.cons_append, List.cons.injEq] at hm
      exact absurd (by rw [hm.2]; simp) hr
  · cases m with
    | nil =>
      simp only [List.nil_append, List.cons.injEq, true_and] at hm
      exact ⟨by simpa using hl, hm.symm⟩
    | cons y m =>
      simp only [List.cons_append, List.cons.injEq] at hm
      exact absurd (by rw [hm.2]; simp) hr'

theorem taskChannel_inj {t t' i i' : Text} (hi : ':' ∉ i) (hi' : ':' ∉ i')
    (h : taskChannel t i = taskChannel t' i') : t = t' ∧ i = i' := by
  obtain ⟨ht, hid⟩ := split_at_last hi hi' (ofText_injective h)
  exact ⟨List.append_cancel_left ht, hid⟩

/-! ### The table -/

structure DbOk (db : Db) : Prop where
  unique : Table.Unique Task.id db.tasks
  uuids : ∀ r ∈ db.tasks, ':' ∉ r.id

def OpOk : Op → Prop
  | .createTask _ _ taskId _ => ':' ∉ taskId
  | _ => True

theorem Route.transactions_ok (route : Route) : ∀ op ∈ route.transactions, OpOk op := by
  intro op hop
  cases route with
  | createTask body tenantId taskId now =>
    rw [List.mem_singleton.mp hop]
    exact taskId.noColon
  | pendingAlias agent slots reapNow now uuid =>
    simp only [Route.transactions] at hop
    split at hop
    · simp at hop
    · simp only [List.mem_cons, List.not_mem_nil, or_false] at hop
      obtain rfl | rfl := hop <;> trivial
  | runMaintenanceOnce expireNow reapNow =>
    simp only [Route.transactions, List.mem_cons, List.not_mem_nil, or_false] at hop
    obtain rfl | rfl := hop <;> trivial
  | register body tenantId tokenHash now => rw [List.mem_singleton.mp hop]; trivial
  | heartbeat agent body now => rw [List.mem_singleton.mp hop]; trivial
  | submitResult agent taskId body now => rw [List.mem_singleton.mp hop]; trivial

variable {sub : Subscription} {db : Db}

theorem row_some {r : Task} (h : sub.row db = some r) :
    r ∈ db.tasks ∧ r.id = sub.taskId ∧ r.tenantId = sub.tenantId := by
  have hp := List.find?_some h
  simp only [Bool.and_eq_true, decide_eq_true_eq] at hp
  exact ⟨List.mem_of_find?_eq_some h, hp⟩

theorem DbOk.same_row (hdb : DbOk db) {r s : Task} (hr : r ∈ db.tasks) (hs : s ∈ db.tasks) (hid : r.id = s.id) :
    r = s :=
  List.inj_on_of_nodup_map hdb.unique hr hs hid

theorem DbOk.row_of_mem (hdb : DbOk db) {r : Task} (hr : r ∈ db.tasks) (hid : r.id = sub.taskId)
    (htenant : r.tenantId = sub.tenantId) : sub.row db = some r := by
  cases hrow : sub.row db with
  | none =>
    have hnone := List.find?_eq_none.mp hrow r hr
    simp [hid, htenant] at hnone
  | some s =>
    obtain ⟨hs, hsid, -⟩ := row_some hrow
    rw [hdb.same_row hs hr (hsid.trans hid.symm)]

/-- A row and a subscription that share a channel belong together. -/
theorem DbOk.row_of_channel (hdb : DbOk db) (hsub : ':' ∉ sub.taskId) {r : Task} (hr : r ∈ db.tasks)
    (hch : taskChannel r.tenantId r.id = sub.channel) : sub.row db = some r := by
  obtain ⟨htenant, hid⟩ := taskChannel_inj (hdb.uuids r hr) hsub hch
  exact hdb.row_of_mem hr hid htenant

theorem row_map {f : Task → Task} {db' : Db} (htasks : db'.tasks = db.tasks.map f)
    (hid : ∀ r, (f r).id = r.id) (htenant : ∀ r, (f r).tenantId = r.tenantId) :
    sub.row db' = (sub.row db).map f := by
  simp only [Subscription.row, htasks, List.find?_map, Function.comp_def, hid, htenant]

/-- A transaction and what is announced of it: exactly its change of the status of
the streamed task. -/
structure Announced (sub : Subscription) (db db' : Db) (announced : List Notice) : Prop where
  uuids : ∀ r ∈ db'.tasks, ':' ∉ r.id
  wrote : ':' ∉ sub.taskId → ∀ n ∈ announced, n.channel = sub.channel → sub.status db' = some n.envelope.status
  quiet : (∀ n ∈ announced, n.channel ≠ sub.channel) → sub.status db' = sub.status db

/-- Operations that act on each row by a function of the row, and announce the
rows they give a new status. -/
theorem Announced.of_map {f : Task → Task} {db' : Db} {announced : List Notice} (hdb : DbOk db)
    (htasks : db'.tasks = db.tasks.map f) (hid : ∀ r, (f r).id = r.id)
    (htenant : ∀ r, (f r).tenantId = r.tenantId)
    (hnotice : ∀ n ∈ announced, ∃ r ∈ db.tasks, n.channel = taskChannel r.tenantId r.id ∧
      (f r).status = n.envelope.status)
    (hstatus : ∀ r ∈ db.tasks, (f r).status = r.status ∨
      ∃ n ∈ announced, n.channel = taskChannel r.tenantId r.id) :
    Announced sub db db' announced := by
  refine ⟨?_, ?_, ?_⟩
  · intro r hr
    rw [htasks] at hr
    obtain ⟨s, hs, rfl⟩ := List.mem_map.mp hr
    rw [hid]
    exact hdb.uuids s hs
  · intro hsub n hn hch
    obtain ⟨r, hr, hrch, hst⟩ := hnotice n hn
    have hrow := hdb.row_of_channel hsub hr (hrch.symm.trans hch)
    rw [Subscription.status, row_map htasks hid htenant, hrow]
    simp [hst]
  · intro hquiet
    rw [Subscription.status, Subscription.status, row_map htasks hid htenant]
    cases hrow : sub.row db with
    | none => rfl
    | some r =>
      obtain ⟨hr, hrid, hrtenant⟩ := row_some hrow
      cases hstatus r hr with
      | inl hsame => simp [hsame]
      | inr hn =>
        obtain ⟨n, hn, hch⟩ := hn
        rw [hrid, hrtenant] at hch
        exact absurd hch (hquiet n hn)

/-! ### The operations one by one -/

section Perform
variable {J : JsonLib} {cfg : Config}

theorem insertTask_cases (r : Task) (db : Db) :
    insertTask r db = .error .integrity ∨
      (∀ s ∈ db.tasks, s.id ≠ r.id) ∧ insertTask r db = .ok (r, { db with tasks := db.tasks ++ [r] }) := by
  unfold insertTask
  split
  · exact Or.inl rfl
  next hany =>
    refine Or.inr ⟨?_, rfl⟩
    intro s hs heq
    exact hany (List.any_eq_true.mpr ⟨s, hs, by simp [heq]⟩)

theorem createTask_announced (hdb : DbOk db) (body : CreateTaskRequest)
    (tenantId taskId : Text) (htask : ':' ∉ taskId) (now : UtcTime) :
    Announced sub db (perform J cfg db (.createTask body tenantId taskId now)).1
      (notices db (.createTask body tenantId taskId now) (perform J cfg db (.createTask body tenantId taskId now)).2) := by
  have hunchanged : Announced sub db db [] := ⟨hdb.uuids, by simp, fun _ => rfl⟩
  simp only [perform, createTask, transaction]
  cases hex : db.tasks.find? (sameKey tenantId body.idempotencyKey) with
  | some existing => simpa only [notices, hex] using hunchanged
  | none =>
    cases hd : J.dumps (.obj body.payload) false with
    | none => simpa only [notices] using hunchanged
    | some payloadJson =>
      dsimp only
      obtain h | ⟨hfresh, h⟩ := insertTask_cases (newTask body tenantId taskId payloadJson now.isoformat) db
      · simpa only [h, notices] using hunchanged
      · simp only [h, notices, hex]
        refine ⟨?_, ?_, ?_⟩
        · intro r hr
          obtain hold | hnew := List.mem_append.mp hr
          · exact hdb.uuids r hold
          · rw [List.mem_singleton.mp hnew]
            exact htask
        · intro hsub n hn hch
          rw [List.mem_singleton.mp hn] at hch ⊢
          obtain ⟨ht, hi⟩ := taskChannel_inj htask hsub hch
          have hnone : sub.row db = none := by
            apply List.find?_eq_none.mpr
            intro r hr
            have hne : r.id ≠ taskId := hfresh r hr
            simp [← hi, hne]
          simp only [Subscription.row] at hnone
          simp [Subscription.status, Subscription.row, hnone, newTask, ht, hi]
        · intro hquiet
          have hne := hquiet _ (List.mem_singleton_self _)
          have hother : ¬ (taskId = sub.taskId ∧ tenantId = sub.tenantId) := by
            intro heq
            apply hne
            simp only [Subscription.channel, heq.1, heq.2]
          simp only [Subscription.status, Subscription.row, List.find?_append]
          rw [show ([newTask body tenantId taskId payloadJson now.isoformat].find? fun r =>
            decide (r.id = sub.taskId) && decide (r.tenantId = sub.tenantId)) = none by
              simpa [newTask] using hother]
          rw [Option.or_none]

/-- Operations that announce nothing leave every status alone. -/
theorem Announced.of_quiet {f : Task → Task} {db' : Db} (hdb : DbOk db)
    (htasks : db'.tasks = db.tasks.map f) (hid : ∀ r, (f r).id = r.id)
    (htenant : ∀ r, (f r).tenantId = r.tenantId) (hstatus : ∀ r, (f r).status = r.status) :
    Announced sub db db' [] :=
  .of_map hdb htasks hid htenant (by simp) (fun r _ => Or.inl (hstatus r))

theorem Announced.of_same {db' : Db} (hdb : DbOk db) (htasks : db'.tasks = db.tasks) :
    Announced sub db db' [] := by
  refine ⟨?_, by simp, fun _ => ?_⟩
  · rw [htasks]
    exact hdb.uuids
  · simp only [Subscription.status, Subscription.row, htasks]

theorem claimPending_announced (hdb : DbOk db) (agent : Agent) (slots : ℤ)
    (now : UtcTime) (uuid : ℕ → Text) :
    Announced sub db (perform J cfg db (.claimPending agent slots now uuid)).1
      (notices db (.claimPending agent slots now uuid)
        (perform J cfg db (.claimPending agent slots now uuid)).2) := by
  obtain ⟨e, h⟩ | ⟨lease, -, h⟩ := claimPending_cases J cfg agent slots now uuid hdb.unique
  · simp only [perform, h, notices]
    exact .of_same hdb rfl
  simp only [perform, h, notices]
  let pairs := claimPairs agent slots uuid db.tasks
  have hnodup : (pairs.map fun p => p.1.id).Nodup := claimPairs_nodup agent slots uuid hdb.unique
  have hother : ∀ (p : Task × Text) (r : Task), p.1.id ≠ r.id →
      (decide (r.id = p.1.id) && claimable agent.tenantId r) = false := by
    intro p r hne
    rw [decide_eq_false (Ne.symm hne), Bool.false_and]
  let f : Task → Task := fun r => pairs.foldl (fun r p =>
    if decide (r.id = p.1.id) && claimable agent.tenantId r then
      claimRow agent now.isoformat lease.isoformat p.2 r else r) r
  have hclaimed : ∀ p ∈ pairs, (f p.1).status = .running := by
    intro p hp
    obtain ⟨-, hpt, hps⟩ := mem_claimPairs hp
    have hguard : (decide (p.1.id = p.1.id) && claimable agent.tenantId p.1) = true := by
      simp [claimable, hpt, hps]
    simp only [f]
    rw [Table.foldl_guard_once Task.id (fun p : Task × Text => p.1.id) _
      (fun (p : Task × Text) r => claimRow agent now.isoformat lease.isoformat p.2 r)
      hother (fun _ _ => rfl) hnodup hp rfl, if_pos hguard]
    rfl
  apply Announced.of_map (f := f) hdb
  · exact claimLoop_tasks J agent now.isoformat lease.isoformat pairs db.tasks
  · intro r
    exact Table.foldl_guard_key _ (fun (p : Task × Text) r => claimRow agent now.isoformat lease.isoformat p.2 r)
      (fun _ _ => rfl) pairs r
  · intro r
    exact @Table.foldl_guard_key Task _ _ Task.tenantId _
      (fun (p : Task × Text) r => claimRow agent now.isoformat lease.isoformat p.2 r) (fun _ _ => rfl) pairs r
  · intro n hn
    obtain ⟨c, hc, rfl⟩ := List.mem_map.mp hn
    obtain ⟨p, hp, rfl⟩ := List.mem_map.mp hc
    obtain ⟨hpm, hpt, -⟩ := mem_claimPairs hp
    exact ⟨p.1, hpm, by rw [hpt]; rfl, hclaimed p hp⟩
  · intro r hr
    by_cases hin : ∃ p ∈ pairs, p.1.id = r.id
    · obtain ⟨p, hp, hpid⟩ := hin
      obtain ⟨hpm, hpt, -⟩ := mem_claimPairs hp
      rw [← hdb.same_row hpm hr hpid]
      refine Or.inr ⟨_, List.mem_map_of_mem (List.mem_map_of_mem hp), ?_⟩
      rw [hpt]
      rfl
    · left
      simp only [f]
      rw [Table.foldl_guard_skip _ (fun (p : Task × Text) r => claimRow agent now.isoformat lease.isoformat p.2 r)
        pairs r (fun p hp => hother p r (fun he => hin ⟨p, hp, he⟩))]

theorem submitResult_announced (hdb : DbOk db) (agent : Agent) (taskId : Text)
    (body : TaskResultRequest) (now : UtcTime) :
    Announced sub db (perform J cfg db (.submitResult agent taskId body now)).1
      (notices db (.submitResult agent taskId body now)
        (perform J cfg db (.submitResult agent taskId body now)).2) := by
  obtain ⟨e, h⟩ | ⟨row, -, -, -, -, -, h⟩ | ⟨row, hmem, encoded, hheld, h⟩ :=
    submitResult_cases J agent taskId body now db
  · simp only [perform, h, notices]
    exact .of_same hdb rfl
  · simp only [perform, h, notices, if_true]
    exact .of_same hdb rfl
  · simp only [perform, h, notices, Bool.false_eq_true, if_false]
    have hrow := holdsAttempt_iff.mp hheld
    apply Announced.of_map (f := fun r => if holdsAttempt agent taskId body.attemptId r then
      completeRow body encoded now.isoformat r else r) hdb rfl
    · exact Table.update_key (completeRow_id body encoded now.isoformat)
    · exact @Table.update_key Task _ Task.tenantId _ _ fun _ => rfl
    · intro n hn
      rw [List.mem_singleton.mp hn]
      refine ⟨row, hmem, by rw [hrow.1, hrow.2.1], ?_⟩
      rw [if_pos hheld]
      rfl
    · intro r _
      by_cases hr : holdsAttempt agent taskId body.attemptId r = true
      · right
        have hheld' := holdsAttempt_iff.mp hr
        exact ⟨_, List.mem_singleton_self _, by rw [hheld'.1, hheld'.2.1]⟩
      · left
        rw [if_neg hr]

theorem reapExpiredTasks_announced (hdb : DbOk db) (now : UtcTime) :
    Announced sub db (perform J cfg db (.reapExpiredTasks now)).1
      (notices db (.reapExpiredTasks now) (perform J cfg db (.reapExpiredTasks now)).2) := by
  simp only [perform, notices]
  have hch : ∀ r, taskChannel (reapTransition cfg r).tenantId (reapTransition cfg r).taskId =
      taskChannel r.tenantId r.id := by
    intro r
    unfold reapTransition
    split <;> rfl
  apply Announced.of_map (f := fun r => if leaseExpired now.isoformat r then
    reapRow cfg now.isoformat r r else r) hdb (reapLoop_select cfg now.isoformat hdb.unique)
  · exact Table.update_key fun r => reapRow_id cfg now.isoformat r r
  · have htenant : ∀ r, (reapRow cfg now.isoformat r r).tenantId = r.tenantId := by
      intro r
      unfold reapRow
      split <;> rfl
    exact Table.update_key htenant
  · intro n hn
    obtain ⟨x, hx, rfl⟩ := List.mem_map.mp hn
    obtain ⟨r, hr, hexp, rfl⟩ := mem_reapExpiredTasks.mp hx
    refine ⟨r, hr, hch r, ?_⟩
    rw [if_pos hexp]
    unfold reapRow reapTransition
    split <;> rfl
  · intro r hr
    by_cases hexp : leaseExpired now.isoformat r = true
    · right
      exact ⟨_, List.mem_map_of_mem (mem_reapExpiredTasks.mpr ⟨r, hr, hexp, rfl⟩), hch r⟩
    · left
      rw [if_neg hexp]

theorem perform_announced (J : JsonLib) (cfg : Config) (sub : Subscription) (hdb : DbOk db) {op : Op} (hop : OpOk op) :
    Announced sub db (perform J cfg db op).1 (notices db op (perform J cfg db op).2) := by
  cases op with
  | register body tenantId tokenHash now =>
    have htasks : (perform J cfg db (.register body tenantId tokenHash now)).1.tasks = db.tasks := by
      obtain h | ⟨a, -, h⟩ := register_cases body tenantId tokenHash now db <;> simp only [perform, h]
    exact .of_same hdb htasks
  | createTask body tenantId taskId now => exact createTask_announced hdb body tenantId taskId hop now
  | claimPending agent slots now uuid => exact claimPending_announced hdb agent slots now uuid
  | heartbeat agent body now =>
    obtain ⟨e, h⟩ | ⟨lease, -, -, h⟩ := heartbeat_cases cfg agent body now db
    · simp only [perform, h, notices]
      exact .of_same hdb rfl
    · simp only [perform, h, notices]
      exact .of_quiet hdb rfl (Table.update_key (renewRow_id now.isoformat lease.isoformat))
        (@Table.update_key Task _ Task.tenantId _ _ fun _ => rfl)
        (@Table.update_key Task _ Task.status _ _ fun _ => rfl)
  | submitResult agent taskId body now => exact submitResult_announced hdb agent taskId body now
  | expireStaleAgents now =>
    have hdb' : (perform J cfg db (.expireStaleAgents now)).1 = (expireStaleAgents cfg now db).2 := rfl
    rw [hdb']
    obtain h | ⟨cutoff, -, h⟩ := expireStaleAgents_cases cfg now db
    · rw [h]
      exact .of_same hdb rfl
    rw [h]
    obtain h | ⟨h, -⟩ := expireBlock_cases cutoff.isoformat now.isoformat db
    · rw [h]
      exact .of_same hdb rfl
    · exact .of_quiet hdb h (Table.update_key (expireLease_id now.isoformat))
        (@Table.update_key Task _ Task.tenantId _ _ fun _ => rfl)
        (@Table.update_key Task _ Task.status _ _ fun _ => rfl)
  | reapExpiredTasks now => exact reapExpiredTasks_announced hdb now

theorem perform_ok (hdb : DbOk db) {op : Op} (hop : OpOk op) : DbOk (perform J cfg db op).1 :=
  ⟨perform_unique hdb.unique op, (perform_announced J cfg ⟨[], [], 0⟩ hdb hop).uuids⟩

theorem notices_of_raised {op : Op} {e : Event} (h : raised e = true) : notices db op e = [] := by
  unfold raised at h
  split at h <;> simp_all [notices]

end Perform

end AgentWorkflow.ControlPlane.EventStream
