import AgentWorkflow.VmAgent.Queue

/-!
# What a queue call does to its rows

One lemma for each call, as seen from one row id; `stepRow` collects them. The
invariant `Queue.Inv` says which keys are unique.
-/

namespace AgentWorkflow.VmAgent
open AgentWorkflow.Lib

namespace Queue

/-- Ids and results are unique, ids stay within the sequence, and the digest
column is the digest of the payload column. -/
structure Inv (sha256 : Bytes → Bytes) (q : Queue) : Prop where
  ids : Table.Unique Row.id q.rows
  bound : ∀ r ∈ q.rows, r.id ≤ q.lastId
  results : Table.Unique (fun r : Row => (r.taskId, r.sha256)) q.rows
  digest : ∀ r ∈ q.rows, r.sha256 = sha256 r.payload

theorem inv_empty (sha256 : Bytes → Bytes) : Inv sha256 empty where
  ids := List.nodup_nil
  bound := fun r hr => by cases hr
  results := List.nodup_nil
  digest := fun r hr => by cases hr

theorem row_mem {q : Queue} {id : ℤ} {r : Row} (h : q.row id = some r) : r ∈ q.rows ∧ r.id = id :=
  Table.find_some h

theorem row_of_mem {sha256 : Bytes → Bytes} {q : Queue} (hq : Inv sha256 q) {r : Row} (hr : r ∈ q.rows) :
    q.row r.id = some r :=
  Table.find_of_mem hq.ids hr

/-! ### Rewriting rows in place -/

/-- A rewrite of the rows that keeps the identifying columns. -/
structure Keeps (f : Row → Row) : Prop where
  id : ∀ r, (f r).id = r.id
  taskId : ∀ r, (f r).taskId = r.taskId
  payload : ∀ r, (f r).payload = r.payload
  sha256 : ∀ r, (f r).sha256 = r.sha256

theorem Keeps.guard {f : Row → Row} (hf : Keeps f) (p : Row → Bool) : Keeps fun r => if p r then f r else r where
  id := Table.update_key hf.id
  taskId := Table.update_key hf.taskId
  payload := Table.update_key hf.payload
  sha256 := Table.update_key hf.sha256

theorem keeps_claimRow (now : ℚ) : Keeps (claimRow now) := ⟨fun _ => rfl, fun _ => rfl, fun _ => rfl, fun _ => rfl⟩

theorem keeps_uploadRow (now : ℚ) : Keeps (uploadRow now) := ⟨fun _ => rfl, fun _ => rfl, fun _ => rfl, fun _ => rfl⟩

theorem keeps_failRow (limit : ℤ) (reason : Bytes) (now : ℚ) : Keeps (failRow limit reason now) :=
  ⟨fun _ => rfl, fun _ => rfl, fun _ => rfl, fun _ => rfl⟩

theorem keeps_dropRow (reason : Bytes) (now : ℚ) : Keeps (dropRow reason now) :=
  ⟨fun _ => rfl, fun _ => rfl, fun _ => rfl, fun _ => rfl⟩

theorem keeps_requeueRow : Keeps requeueRow := ⟨fun _ => rfl, fun _ => rfl, fun _ => rfl, fun _ => rfl⟩

theorem Inv.rewrite {sha256 : Bytes → Bytes} {q : Queue} (hq : Inv sha256 q) {f : Row → Row} (hf : Keeps f) :
    Inv sha256 { q with rows := q.rows.map f } where
  ids := Table.unique_map hf.id hq.ids
  bound := by
    intro r hr
    obtain ⟨s, hs, rfl⟩ := List.mem_map.mp hr
    rw [hf.id]
    exact hq.bound s hs
  results := by
    refine Table.unique_map (fun r => ?_) hq.results
    rw [hf.taskId, hf.sha256]
  digest := by
    intro r hr
    obtain ⟨s, hs, rfl⟩ := List.mem_map.mp hr
    rw [hf.sha256, hf.payload]
    exact hq.digest s hs

theorem Inv.set {sha256 : Bytes → Bytes} {q : Queue} (hq : Inv sha256 q) (id : ℤ) {f : Row → Row} (hf : Keeps f) :
    Inv sha256 (q.set id f) :=
  hq.rewrite (hf.guard fun r => decide (r.id = id))

theorem Inv.filter {sha256 : Bytes → Bytes} {q : Queue} (hq : Inv sha256 q) (p : Row → Bool) :
    Inv sha256 { q with rows := q.rows.filter p } where
  ids := hq.ids.sublist (List.filter_sublist.map _)
  bound := fun r hr => hq.bound r (List.mem_of_mem_filter hr)
  results := hq.results.sublist (List.filter_sublist.map _)
  digest := fun r hr => hq.digest r (List.mem_of_mem_filter hr)

theorem row_rewrite (q : Queue) {f : Row → Row} (hf : ∀ r, (f r).id = r.id) (id : ℤ) :
    ({ q with rows := q.rows.map f } : Queue).row id = (q.row id).map f :=
  Table.find_map hf id q.rows

theorem row_set_self (q : Queue) {f : Row → Row} (hf : Keeps f) {id : ℤ} {r : Row} (h : q.row id = some r) :
    (q.set id f).row id = some (f r) := by
  rw [Queue.set, Table.update, row_rewrite q (hf.guard _).id, h, Option.map_some, (row_mem h).2]
  simp

theorem row_set_ne (q : Queue) {f : Row → Row} (hf : Keeps f) {id i : ℤ} (h : id ≠ i) :
    (q.set i f).row id = q.row id := by
  rw [Queue.set, Table.update, row_rewrite q (hf.guard _).id]
  cases hr : q.row id with
  | none => rfl
  | some r =>
    rw [Option.map_some, (row_mem hr).2]
    simp [h]

/-! ### The outcomes of each call -/

theorem enqueue_cases (sha256 : Bytes → Bytes) (taskId payload : Bytes) (now : ℚ) (q : Queue) :
    (∃ e, q.enqueue sha256 taskId payload now = (.error e, q)) ∨
    (∃ r ∈ q.rows, r.taskId = taskId ∧ r.sha256 = sha256 payload ∧
      q.enqueue sha256 taskId payload now = (.ok r.id, q)) ∨
    ((∀ r ∈ q.rows, ¬ (r.taskId = taskId ∧ r.sha256 = sha256 payload)) ∧
      q.enqueue sha256 taskId payload now = (.ok (q.lastId + 1),
        ⟨q.rows ++ [newRow sha256 (q.lastId + 1) taskId payload now], q.lastId + 1⟩)) := by
  unfold enqueue transaction
  dsimp only
  by_cases ht : taskId = []
  · rw [if_pos ht]
    exact Or.inl ⟨_, rfl⟩
  rw [if_neg ht]
  by_cases hp : payload = []
  · rw [if_pos hp]
    exact Or.inl ⟨_, rfl⟩
  rw [if_neg hp]
  cases hf : q.rows.find? (sameResult taskId (sha256 payload)) with
  | some r =>
    have hr := List.find?_some hf
    simp only [sameResult, Bool.and_eq_true, decide_eq_true_eq] at hr
    exact Or.inr (Or.inl ⟨r, List.mem_of_find?_eq_some hf, hr.1, hr.2, rfl⟩)
  | none =>
    dsimp only
    by_cases hfull : maxRowid ≤ q.lastId
    · rw [if_pos hfull]
      exact Or.inl ⟨_, rfl⟩
    · rw [if_neg hfull]
      refine Or.inr (Or.inr ⟨fun r hr hsame => ?_, rfl⟩)
      have hno := List.find?_eq_none.mp hf r hr
      simp [sameResult, hsame] at hno

theorem dequeue_eq (limit : ℤ) (now : ℚ) (q : Queue) :
    q.dequeue limit now = (.ok ((q.nextQueued limit).map itemOf),
      { q with rows := q.rows.map fun r =>
          if decide (r.id ∈ (q.nextQueued limit).map Row.id) then claimRow now r else r }) := by
  unfold dequeue transaction
  dsimp only
  by_cases hn : q.nextQueued limit = []
  · rw [if_pos hn, hn]
    simp
  · rw [if_neg hn]
    rfl

theorem mem_nextQueued {q : Queue} {limit : ℤ} {r : Row} (h : r ∈ q.nextQueued limit) :
    r ∈ q.rows ∧ r.status = .queued := by
  have hs := Table.mem_select.mp (List.mem_of_mem_take h)
  exact ⟨hs.1, of_decide_eq_true hs.2⟩

theorem markUploaded_cases (id : ℤ) (now : ℚ) (q : Queue) :
    (∃ e, q.markUploaded id now = (.error e, q)) ∨
    (∃ r, q.row id = some r ∧ r.status = .uploaded ∧ q.markUploaded id now = (.ok (), q)) ∨
    (∃ r, q.row id = some r ∧ (r.status = .uploading ∨ r.status = .queued) ∧
      q.markUploaded id now = (.ok (), q.set id (uploadRow now))) := by
  unfold markUploaded transaction
  dsimp only
  cases hr : q.row id with
  | none => exact Or.inl ⟨_, rfl⟩
  | some r =>
    cases hs : r.status with
    | queued => exact Or.inr (Or.inr ⟨r, rfl, Or.inr hs, by simp [hs]⟩)
    | uploading => exact Or.inr (Or.inr ⟨r, rfl, Or.inl hs, by simp [hs]⟩)
    | uploaded => exact Or.inr (Or.inl ⟨r, rfl, hs, by simp [hs]⟩)
    | dropped => exact Or.inl ⟨.markUploaded id .dropped, by simp [hs]⟩

theorem markFailed_cases (cfg : QueueConfig) (id : ℤ) (reason : Bytes) (maxRetries : ℤ) (now : ℚ) (q : Queue) :
    (∃ e, q.markFailed cfg id reason maxRetries now = (.error e, q)) ∨
    (∃ r, q.row id = some r ∧ (r.status = .uploading ∨ r.status = .queued) ∧
      q.markFailed cfg id reason maxRetries now =
        (.ok (), q.set id (failRow (effectiveMaxRetries cfg maxRetries) reason now))) := by
  unfold markFailed transaction
  dsimp only
  cases hr : q.row id with
  | none => exact Or.inl ⟨_, rfl⟩
  | some r =>
    by_cases hs : r.status ≠ .uploading ∧ r.status ≠ .queued
    · exact Or.inl ⟨.markFailed id r.status, by simp [hs]⟩
    · refine Or.inr ⟨r, rfl, ?_, by simp [hs]⟩
      tauto

theorem forceDropped_cases (id : ℤ) (reason : Bytes) (now : ℚ) (q : Queue) :
    (∃ e, q.forceDropped id reason now = (.error e, q)) ∨
    (∃ r, q.row id = some r ∧ r.status = .dropped ∧ q.forceDropped id reason now = (.ok (), q)) ∨
    (∃ r, q.row id = some r ∧ (r.status = .uploading ∨ r.status = .queued) ∧
      q.forceDropped id reason now = (.ok (), q.set id (dropRow reason now))) := by
  unfold forceDropped transaction
  dsimp only
  cases hr : q.row id with
  | none => exact Or.inl ⟨_, rfl⟩
  | some r =>
    cases hs : r.status with
    | queued => exact Or.inr (Or.inr ⟨r, rfl, Or.inr hs, by simp [hs]⟩)
    | uploading => exact Or.inr (Or.inr ⟨r, rfl, Or.inl hs, by simp [hs]⟩)
    | dropped => exact Or.inr (Or.inl ⟨r, rfl, hs, by simp [hs]⟩)
    | uploaded => exact Or.inl ⟨.forceDrop id .uploaded, by simp [hs]⟩

/-- The rows the loop still has to put back. -/
def requeues (ids seen : List ℤ) (r : Row) : Bool :=
  decide (r.id ∈ ids) && decide (r.id ∉ seen) && isUploading r

/-- The loop puts back exactly the named rows that are uploading, and every row
it names exists. -/
theorem requeueLoop_ok {ids seen : List ℤ} {q q' : Queue} (hu : Table.Unique Row.id q.rows)
    (h : requeueLoop ids seen q = .ok q') :
    q' = { q with rows := q.rows.map fun r => if requeues ids seen r then requeueRow r else r } ∧
      ∀ id ∈ ids, id ∉ seen → ∃ r, q.row id = some r := by
  induction ids generalizing seen q with
  | nil =>
    cases h
    simp [requeues]
  | cons i ids ih =>
    unfold requeueLoop at h
    by_cases hseen : i ∈ seen
    · rw [if_pos hseen] at h
      obtain ⟨hq, hrows⟩ := ih hu h
      refine ⟨?_, ?_⟩
      · rw [hq]
        congr 1
        apply List.map_congr_left
        intro r _
        by_cases hri : r.id = i
        · simp [requeues, hri, hseen]
        · simp [requeues, hri]
      · intro id hid hns
        rcases List.mem_cons.mp hid with rfl | hid
        · exact absurd hseen hns
        · exact hrows id hid hns
    rw [if_neg hseen] at h
    cases hr : q.row i with
    | none =>
      rw [hr] at h
      cases h
    | some r =>
      rw [hr] at h
      have hri := row_mem hr
      have honly : ∀ s ∈ q.rows, s.id = i → s = r := by
        intro s hs hsi
        have hfind := Table.find_of_mem hu hs
        rw [hsi] at hfind
        exact Option.some.inj (hfind.symm.trans hr)
      have hfound : ∀ p : Queue, (∀ id, (p.row id).isSome = (q.row id).isSome) →
          (∀ id ∈ ids, id ∉ i :: seen → ∃ r, p.row id = some r) →
          ∀ id ∈ i :: ids, id ∉ seen → ∃ r, q.row id = some r := by
        intro p hp hrows id hid hns
        by_cases hidi : id = i
        · exact ⟨r, hidi ▸ hr⟩
        · have hin : id ∈ ids := by
            rcases List.mem_cons.mp hid with he | hid
            · exact absurd he hidi
            · exact hid
          obtain ⟨s, hs⟩ := hrows id hin (by simp [hidi, hns])
          rw [← Option.isSome_iff_exists, ← hp, hs]
          rfl
      by_cases hup : r.status = .uploading
      · simp only [hup] at h
        obtain ⟨hq, hrows⟩ := ih (Table.unique_map (Table.update_key keeps_requeueRow.id) hu) h
        refine ⟨?_, hfound (q.set i requeueRow) (fun id => ?_) hrows⟩
        · rw [hq]
          simp only [Queue.set, Table.update, List.map_map]
          congr 1
          apply List.map_congr_left
          intro s hs
          by_cases hsi : s.id = i
          · have hsr := honly s hs hsi
            subst hsr
            simp [requeues, isUploading, requeueRow, hsi, hseen, hup]
          · simp [requeues, isUploading, hsi]
        · by_cases hidi : id = i
          · rw [hidi, row_set_self q keeps_requeueRow hr, hr]
            rfl
          · rw [row_set_ne q keeps_requeueRow hidi]
      · have h' : requeueLoop ids (i :: seen) q = .ok q' := by
          cases hs : r.status <;> simp_all
        obtain ⟨hq, hrows⟩ := ih hu h'
        refine ⟨?_, hfound q (fun _ => rfl) hrows⟩
        rw [hq]
        congr 1
        apply List.map_congr_left
        intro s hs
        by_cases hsi : s.id = i
        · have hsr := honly s hs hsi
          subst hsr
          simp [requeues, isUploading, hup]
        · simp [requeues, hsi]

theorem requeueUploading_cases (ids : List ℤ) {q : Queue} (hu : Table.Unique Row.id q.rows) :
    (∃ e, q.requeueUploading ids = (.error e, q)) ∨
    ((∀ id ∈ ids, ∃ r, q.row id = some r) ∧ q.requeueUploading ids = (.ok (),
      { q with rows := q.rows.map fun r => if requeues ids [] r then requeueRow r else r })) := by
  unfold requeueUploading transaction
  dsimp only
  cases hl : requeueLoop ids [] q with
  | error e => exact Or.inl ⟨e, rfl⟩
  | ok q' =>
    obtain ⟨hq, hrows⟩ := requeueLoop_ok hu hl
    refine Or.inr ⟨fun id hid => hrows id hid (by simp), ?_⟩
    rw [← hq]

end Queue

/-! ### All calls together -/

theorem inv_enqueue {sha256 : Bytes → Bytes} {q : Queue} (hq : q.Inv sha256) (taskId payload : Bytes) (now : ℚ) :
    (q.enqueue sha256 taskId payload now).2.Inv sha256 := by
  rcases q.enqueue_cases sha256 taskId payload now with ⟨e, h⟩ | ⟨r, -, -, -, h⟩ | ⟨hnew, h⟩
  · rw [h]
    exact hq
  · rw [h]
    exact hq
  · rw [h]
    have hmem : ∀ r ∈ q.rows ++ [Queue.newRow sha256 (q.lastId + 1) taskId payload now],
        r ∈ q.rows ∨ r = Queue.newRow sha256 (q.lastId + 1) taskId payload now := by
      intro r hr
      rcases List.mem_append.mp hr with hr | hr
      · exact Or.inl hr
      · exact Or.inr (List.mem_singleton.mp hr)
    refine ⟨?_, fun r hr => ?_, ?_, fun r hr => ?_⟩
    · apply Table.unique_snoc hq.ids
      rw [Table.find_none]
      intro r hr he
      have hb := hq.bound r hr
      have he' : r.id = q.lastId + 1 := he
      omega
    · rcases hmem r hr with hr | rfl
      · have hb := hq.bound r hr
        dsimp only
        omega
      · exact le_rfl
    · apply Table.unique_snoc hq.results
      rw [Table.find_none]
      intro r hr he
      exact hnew r hr (Prod.mk.inj he)
    · rcases hmem r hr with hr | rfl
      · exact hq.digest r hr
      · rfl

theorem exec_inv {sha256 : Bytes → Bytes} (cfg : QueueConfig) {q : Queue} (hq : q.Inv sha256) (op : QueueOp) :
    (op.exec sha256 cfg q).2.Inv sha256 := by
  cases op with
  | enqueue taskId payload now => exact inv_enqueue hq taskId payload now
  | dequeue limit now =>
    simp only [QueueOp.exec, Queue.dequeue_eq, Prod.map_snd, id_eq]
    exact hq.rewrite ((Queue.keeps_claimRow now).guard _)
  | markUploaded i now =>
    rcases q.markUploaded_cases i now with ⟨e, h⟩ | ⟨r, -, -, h⟩ | ⟨r, -, -, h⟩ <;>
      simp only [QueueOp.exec, h, Prod.map_snd, id_eq]
    · exact hq
    · exact hq
    · exact hq.set i (Queue.keeps_uploadRow now)
  | markFailed i reason maxRetries now =>
    rcases q.markFailed_cases cfg i reason maxRetries now with ⟨e, h⟩ | ⟨r, -, -, h⟩ <;>
      simp only [QueueOp.exec, h, Prod.map_snd, id_eq]
    · exact hq
    · exact hq.set i (Queue.keeps_failRow _ reason now)
  | forceDropped i reason now =>
    rcases q.forceDropped_cases i reason now with ⟨e, h⟩ | ⟨r, -, -, h⟩ | ⟨r, -, -, h⟩ <;>
      simp only [QueueOp.exec, h, Prod.map_snd, id_eq]
    · exact hq
    · exact hq
    · exact hq.set i (Queue.keeps_dropRow reason now)
  | requeueUploading ids =>
    rcases Queue.requeueUploading_cases ids hq.ids with ⟨e, h⟩ | ⟨-, h⟩ <;>
      simp only [QueueOp.exec, h, Prod.map_snd, id_eq]
    · exact hq
    · exact hq.rewrite (Queue.keeps_requeueRow.guard _)
  | reclaimUploading => exact hq.rewrite (Queue.keeps_requeueRow.guard _)
  | prune cutoff => exact hq.filter _

section Step
variable {sha256 : Bytes → Bytes} {cfg : QueueConfig} {q : Queue}

/-- A statement `UPDATE .. WHERE id=?` as seen from one row. -/
theorem StepRow.of_set {op : QueueOp} {i : ℤ} {f : Row → Row} {r : Row} (hf : Queue.Keeps f)
    (hr : q.row i = some r) (hself : StepRow cfg q op (.ok .done) i (some r) (some (f r)))
    (hother : ∀ id, id ≠ i → op.fails id (.ok .done) = false) (id : ℤ) :
    StepRow cfg q op (.ok .done) id (q.row id) ((q.set i f).row id) := by
  by_cases hid : id = i
  · subst hid
    rw [q.row_set_self hf hr, hr]
    exact hself
  · rw [q.row_set_ne hf hid]
    exact .same _ (hother id hid) (by simp [claimedIds])

theorem enqueue_stepRow (hq : q.Inv sha256) (taskId payload : Bytes) (now : ℚ) (id : ℤ) :
    StepRow cfg q (.enqueue taskId payload now) ((QueueOp.enqueue taskId payload now).exec sha256 cfg q).1 id
      (q.row id) (((QueueOp.enqueue taskId payload now).exec sha256 cfg q).2.row id) := by
  rcases q.enqueue_cases sha256 taskId payload now with ⟨e, h⟩ | ⟨r, -, -, -, h⟩ | ⟨-, h⟩ <;>
    simp only [QueueOp.exec, h, Prod.map_snd, Prod.map_fst, id_eq, Except.map]
  · exact .same _ rfl (by simp [claimedIds])
  · exact .same _ rfl (by simp [claimedIds])
  · simp only [Queue.row, Table.find_append]
    by_cases hid : id = q.lastId + 1
    · have hnone : Table.find Row.id id q.rows = none := by
        rw [Table.find_none]
        intro r hr
        have hb := hq.bound r hr
        omega
      rw [hnone, Option.none_or, hid]
      have hfind : Table.find Row.id (q.lastId + 1) [Queue.newRow sha256 (q.lastId + 1) taskId payload now] =
          some (Queue.newRow sha256 (q.lastId + 1) taskId payload now) := by
        simp [Table.find, Queue.newRow]
      rw [hfind]
      exact .create _ taskId payload now rfl rfl rfl ⟨rfl, rfl⟩
    · have hfind : Table.find Row.id id [Queue.newRow sha256 (q.lastId + 1) taskId payload now] = none := by
        rw [Table.find_none]
        intro r hr
        rw [List.mem_singleton.mp hr]
        exact Ne.symm hid
      rw [hfind, Option.or_none]
      exact .same _ rfl (by simp [claimedIds])

theorem claimedIds_items (rows : List Row) :
    claimedIds (.ok (.items (rows.map Queue.itemOf))) = rows.map Row.id := by
  simp only [claimedIds, List.map_map]
  rfl

theorem dequeue_stepRow (hq : q.Inv sha256) (limit : ℤ) (now : ℚ) (id : ℤ) :
    StepRow cfg q (.dequeue limit now) ((QueueOp.dequeue limit now).exec sha256 cfg q).1 id
      (q.row id) (((QueueOp.dequeue limit now).exec sha256 cfg q).2.row id) := by
  simp only [QueueOp.exec, Queue.dequeue_eq, Prod.map_snd, Prod.map_fst, id_eq, Except.map]
  rw [q.row_rewrite ((Queue.keeps_claimRow now).guard _).id]
  cases hr : q.row id with
  | none =>
    refine .same _ rfl ?_
    rw [claimedIds_items]
    intro hmem
    obtain ⟨s, hs, hsid⟩ := List.mem_map.mp hmem
    have hrow := Queue.row_of_mem hq (Queue.mem_nextQueued hs).1
    rw [hsid, hr] at hrow
    cases hrow
  | some r =>
    have hri := (Queue.row_mem hr).2
    rw [Option.map_some]
    by_cases hin : r.id ∈ (q.nextQueued limit).map Row.id
    · rw [if_pos (by simpa using hin)]
      obtain ⟨s, hs, hsid⟩ := List.mem_map.mp hin
      have hrow := Queue.row_of_mem hq (Queue.mem_nextQueued hs).1
      rw [hsid, hri, hr] at hrow
      refine .claim r limit now rfl ?_ ?_
      · rw [claimedIds_items, ← hri]
        exact hin
      · rw [Option.some.inj hrow]
        exact (Queue.mem_nextQueued hs).2
    · rw [if_neg (by simpa using hin)]
      refine .same _ rfl ?_
      rw [claimedIds_items, ← hri]
      exact hin

theorem stepRow (hq : q.Inv sha256) (op : QueueOp) (id : ℤ) :
    StepRow cfg q op (op.exec sha256 cfg q).1 id (q.row id) ((op.exec sha256 cfg q).2.row id) := by
  cases op with
  | enqueue taskId payload now => exact enqueue_stepRow hq taskId payload now id
  | dequeue limit now => exact dequeue_stepRow hq limit now id
  | markUploaded i now =>
    rcases q.markUploaded_cases i now with ⟨e, h⟩ | ⟨r, -, -, h⟩ | ⟨r, hr, hlive, h⟩ <;>
      simp only [QueueOp.exec, h, Prod.map_snd, Prod.map_fst, id_eq, Except.map]
    · exact .same _ rfl (by simp [claimedIds])
    · exact .same _ rfl (by simp [claimedIds])
    · exact .of_set (Queue.keeps_uploadRow now) hr (.upload r now rfl rfl hlive) (fun _ _ => rfl) id
  | markFailed i reason maxRetries now =>
    rcases q.markFailed_cases cfg i reason maxRetries now with ⟨e, h⟩ | ⟨r, hr, hlive, h⟩ <;>
      simp only [QueueOp.exec, h, Prod.map_snd, Prod.map_fst, id_eq, Except.map]
    · exact .same _ rfl (by simp [claimedIds])
    · refine .of_set (Queue.keeps_failRow _ reason now) hr (.fail r reason maxRetries now rfl rfl hlive)
        (fun j hj => ?_) id
      simp [QueueOp.fails, Ne.symm hj]
  | forceDropped i reason now =>
    rcases q.forceDropped_cases i reason now with ⟨e, h⟩ | ⟨r, -, -, h⟩ | ⟨r, hr, hlive, h⟩ <;>
      simp only [QueueOp.exec, h, Prod.map_snd, Prod.map_fst, id_eq, Except.map]
    · exact .same _ rfl (by simp [claimedIds])
    · exact .same _ rfl (by simp [claimedIds])
    · exact .of_set (Queue.keeps_dropRow reason now) hr (.drop r reason now rfl rfl hlive) (fun _ _ => rfl) id
  | requeueUploading ids =>
    rcases Queue.requeueUploading_cases ids hq.ids with ⟨e, h⟩ | ⟨-, h⟩ <;>
      simp only [QueueOp.exec, h, Prod.map_snd, Prod.map_fst, id_eq, Except.map]
    · exact .same _ rfl (by simp [claimedIds])
    · rw [q.row_rewrite (Queue.keeps_requeueRow.guard _).id]
      cases hr : q.row id with
      | none => exact .same _ rfl (by simp [claimedIds])
      | some r =>
        rw [Option.map_some]
        by_cases hreq : Queue.requeues ids [] r = true
        · rw [if_pos hreq]
          simp only [Queue.requeues, Queue.isUploading, Bool.and_eq_true, decide_eq_true_eq] at hreq
          rw [(Queue.row_mem hr).2] at hreq
          exact .release r (Or.inl ⟨ids, rfl, hreq.1.1⟩) ⟨_, rfl⟩ (by simp [claimedIds]) hreq.2
        · rw [if_neg hreq]
          exact .same _ rfl (by simp [claimedIds])
  | reclaimUploading =>
    simp only [QueueOp.exec, Queue.reclaimUploading, Table.update]
    rw [q.row_rewrite (Queue.keeps_requeueRow.guard _).id]
    cases hr : q.row id with
    | none => exact .same _ rfl (by simp [claimedIds])
    | some r =>
      rw [Option.map_some]
      by_cases hup : Queue.isUploading r = true
      · rw [if_pos hup]
        exact .release r (Or.inr rfl) ⟨_, rfl⟩ (by simp [claimedIds]) (of_decide_eq_true hup)
      · rw [if_neg hup]
        exact .same _ rfl (by simp [claimedIds])
  | prune cutoff =>
    simp only [QueueOp.exec, Queue.prune, Queue.row]
    rw [Table.find_filter hq.ids]
    cases hr : Table.find Row.id id q.rows with
    | none => exact .same _ rfl (by simp [claimedIds])
    | some r =>
      by_cases hp : Queue.isPrunable cutoff r = true
      · rw [Option.filter_some, if_neg (by simp [hp])]
        simp only [Queue.isPrunable, Bool.and_eq_true, decide_eq_true_eq] at hp
        exact .prune r cutoff rfl (by simp [claimedIds]) hp.1
      · rw [Option.filter_some, if_pos (by simp [hp])]
        exact .same _ rfl (by simp [claimedIds])

/-- The sequence never goes back. -/
theorem exec_lastId_le (hq : q.Inv sha256) (op : QueueOp) : q.lastId ≤ (op.exec sha256 cfg q).2.lastId := by
  cases op with
  | enqueue taskId payload now =>
    rcases q.enqueue_cases sha256 taskId payload now with ⟨e, h⟩ | ⟨r, -, -, -, h⟩ | ⟨-, h⟩ <;>
      simp [QueueOp.exec, h]
  | dequeue limit now => simp [QueueOp.exec, Queue.dequeue_eq]
  | markUploaded i now =>
    rcases q.markUploaded_cases i now with ⟨e, h⟩ | ⟨r, -, -, h⟩ | ⟨r, -, -, h⟩ <;>
      simp [QueueOp.exec, h, Queue.set]
  | markFailed i reason maxRetries now =>
    rcases q.markFailed_cases cfg i reason maxRetries now with ⟨e, h⟩ | ⟨r, -, -, h⟩ <;>
      simp [QueueOp.exec, h, Queue.set]
  | forceDropped i reason now =>
    rcases q.forceDropped_cases i reason now with ⟨e, h⟩ | ⟨r, -, -, h⟩ | ⟨r, -, -, h⟩ <;>
      simp [QueueOp.exec, h, Queue.set]
  | requeueUploading ids =>
    rcases Queue.requeueUploading_cases ids hq.ids with ⟨e, h⟩ | ⟨-, h⟩ <;>
      simp [QueueOp.exec, h]
  | reclaimUploading => exact le_rfl
  | prune cutoff => exact le_rfl

/-- A call that returns an error changes nothing. -/
theorem exec_error {op : QueueOp} {e : QueueError} (hq : q.Inv sha256)
    (h : (op.exec sha256 cfg q).1 = .error e) : (op.exec sha256 cfg q).2 = q := by
  cases op with
  | enqueue taskId payload now =>
    rcases q.enqueue_cases sha256 taskId payload now with ⟨e, h'⟩ | ⟨r, -, -, -, h'⟩ | ⟨-, h'⟩ <;>
      simp [QueueOp.exec, h', Except.map] at h ⊢
  | dequeue limit now => simp [QueueOp.exec, Queue.dequeue_eq, Except.map] at h
  | markUploaded i now =>
    rcases q.markUploaded_cases i now with ⟨e, h'⟩ | ⟨r, -, -, h'⟩ | ⟨r, -, -, h'⟩ <;>
      simp [QueueOp.exec, h', Except.map] at h ⊢
  | markFailed i reason maxRetries now =>
    rcases q.markFailed_cases cfg i reason maxRetries now with ⟨e, h'⟩ | ⟨r, -, -, h'⟩ <;>
      simp [QueueOp.exec, h', Except.map] at h ⊢
  | forceDropped i reason now =>
    rcases q.forceDropped_cases i reason now with ⟨e, h'⟩ | ⟨r, -, -, h'⟩ | ⟨r, -, -, h'⟩ <;>
      simp [QueueOp.exec, h', Except.map] at h ⊢
  | requeueUploading ids =>
    rcases Queue.requeueUploading_cases ids hq.ids with ⟨e, h'⟩ | ⟨-, h'⟩ <;>
      simp [QueueOp.exec, h', Except.map] at h ⊢
  | reclaimUploading => cases h
  | prune cutoff => cases h

end Step

end AgentWorkflow.VmAgent
