import AgentWorkflow.VmAgent.ReplaySafety

/-!
# The counters of the replayer

A row is counted when a mark that left it uploaded or dropped returned. A row
that was moved without being counted has its terminal write staged, so recovery
counts it; the one exception is a `MarkFailed` of the last attempt that failed
after it took effect.
-/

namespace AgentWorkflow.VmAgent
open AgentWorkflow.Lib

def TerminalKind.status : TerminalKind → Status
  | .uploaded => .uploaded
  | .dropped => .dropped

/-- The counter of `countTerminal`. -/
def Metrics.count (m : Metrics) : TerminalKind → ℕ
  | .uploaded => m.uploaded
  | .dropped => m.dropped

def Queue.statusOf (q : Queue) (id : ℤ) : Option Status := (q.row id).map Row.status

/-- The rows a call moved to the status. -/
def movedBy (k : TerminalKind) : ReplayEvent → List ℤ
  | .call _ _ before after => (after.rows.map Row.id).filter fun id =>
    decide (after.statusOf id = some k.status) && decide (before.statusOf id ≠ some k.status)
  | _ => []

/-- The row that a mark left in the status, if the mark returned without an
error. -/
def countedBy (k : TerminalKind) : ReplayEvent → List ℤ
  | .call op (.ok _) _ after => op.target.toList.filter fun id => decide (after.statusOf id = some k.status)
  | _ => []

def moved (k : TerminalKind) (h : List ReplayEvent) : List ℤ := h.flatMap (movedBy k)

def counted (k : TerminalKind) (h : List ReplayEvent) : List ℤ := h.flatMap (countedBy k)

/-- A `MarkFailed` of the row used up its retries and took effect, but returned
an error. -/
def ReplayEvent.Misses (id : ℤ) : ReplayEvent → Prop
  | .call (.markFailed i _ maxRetries _) (.error _) before after =>
    i = id ∧ after ≠ before ∧ ∃ r, before.row id = some r ∧ maxRetries ≤ (r.retryCount + 1 : ℕ)
  | _ => False

section
-- the equations are made here once, not in every proof at the same time
attribute [local simp] movedBy countedBy ReplayEvent.Misses
end

def Missed (h : List ReplayEvent) (id : ℤ) : Prop := ∃ e ∈ h, e.Misses id

@[simp] theorem moved_snoc (k : TerminalKind) (h : List ReplayEvent) (e : ReplayEvent) :
    moved k (h ++ [e]) = moved k h ++ movedBy k e := by
  simp [moved]

@[simp] theorem counted_snoc (k : TerminalKind) (h : List ReplayEvent) (e : ReplayEvent) :
    counted k (h ++ [e]) = counted k h ++ countedBy k e := by
  simp [counted]

theorem missed_snoc {h : List ReplayEvent} {e : ReplayEvent} {id : ℤ} :
    Missed (h ++ [e]) id ↔ Missed h id ∨ e.Misses id := by
  simp [Missed, or_and_right, exists_or]

theorem statusOf_some {q : Queue} {id : ℤ} {s : Status} :
    q.statusOf id = some s ↔ ∃ r, q.row id = some r ∧ r.status = s := by
  simp [Queue.statusOf]

theorem mem_movedBy {k : TerminalKind} {op : QueueOp} {reply : Except QueueError Reply} {q q' : Queue} {id : ℤ} :
    id ∈ movedBy k (.call op reply q q') ↔ q'.statusOf id = some k.status ∧ q.statusOf id ≠ some k.status := by
  simp only [movedBy, List.mem_filter, Bool.and_eq_true, decide_eq_true_eq]
  constructor
  · exact And.right
  · rintro ⟨hafter, hbefore⟩
    obtain ⟨r, hr, -⟩ := statusOf_some.mp hafter
    obtain ⟨hmem, rfl⟩ := Queue.row_mem hr
    exact ⟨List.mem_map_of_mem hmem, hafter, hbefore⟩

theorem mem_countedBy {k : TerminalKind} {op : QueueOp} {reply : Except QueueError Reply} {q q' : Queue} {id : ℤ} :
    id ∈ countedBy k (.call op reply q q') ↔
      (∃ x, reply = .ok x) ∧ op.target = some id ∧ q'.statusOf id = some k.status := by
  cases reply with
  | error e => simp [countedBy]
  | ok x => simp [countedBy]

theorem TerminalKind.status_inj {k k' : TerminalKind} (h : k.status = k'.status) : k = k' := by
  cases k <;> cases k' <;> first | rfl | cases h

/-! ### Moving a row -/

/-- Only a mark moves a row to a terminal status, and only from a live one. -/
theorem StepRow.moves {cfg : QueueConfig} {q q' : Queue} {op : QueueOp} {reply : Except QueueError Reply} {id : ℤ}
    (hs : StepRow cfg q op reply id (q.row id) (q'.row id)) {k : TerminalKind}
    (hafter : q'.statusOf id = some k.status) (hbefore : q.statusOf id ≠ some k.status) :
    op.target = some id ∧ ∃ r, q.row id = some r ∧ (r.status = .uploading ∨ r.status = .queued) := by
  obtain ⟨r', hr', hst⟩ := statusOf_some.mp hafter
  have hne : ∀ r, q.row id = some r → r.status ≠ k.status := fun r hr h => hbefore (statusOf_some.mpr ⟨r, hr, h⟩)
  rw [hr'] at hs
  generalize hb : q.row id = before at hs hne ⊢
  cases hs with
  | same => exact absurd hst (hne r' rfl)
  | create r _ _ _ _ _ _ hfresh =>
    rw [hfresh.1] at hst
    cases k <;> cases hst
  | claim r _ _ _ _ _ => cases k <;> cases hst
  | upload r now hop _ hlive => exact ⟨by rw [hop]; rfl, r, rfl, hlive⟩
  | fail r _ _ _ hop _ hlive => exact ⟨by rw [hop]; rfl, r, rfl, hlive⟩
  | drop r _ _ hop _ hlive => exact ⟨by rw [hop]; rfl, r, rfl, hlive⟩
  | release r _ _ _ _ => cases k <;> cases hst

/-- A terminal row stays as it is until it is deleted. -/
theorem StepRow.settles {cfg : QueueConfig} {q q' : Queue} {op : QueueOp} {reply : Except QueueError Reply} {id : ℤ}
    (hs : StepRow cfg q op reply id (q.row id) (q'.row id)) (hle : id ≤ q.lastId) {k : TerminalKind}
    (hbefore : ∀ s, q.statusOf id = some s → s = k.status) : ∀ s, q'.statusOf id = some s → s = k.status := by
  intro s hafter
  obtain ⟨r', hr', rfl⟩ := statusOf_some.mp hafter
  rw [hr'] at hs
  cases hb : q.row id with
  | none =>
    rw [hb] at hs
    cases hs.absent hle
  | some r =>
    have hk : r.status = k.status := hbefore _ (statusOf_some.mpr ⟨r, hb, rfl⟩)
    rw [hb] at hs
    rcases hs.terminal (by cases k <;> simp [hk, TerminalKind.status]) with hsame | ⟨hnone, -⟩
    · rw [Option.some.inj hsame]
      exact hk
    · cases hnone

/-- The rows moved so far: each once, and it is still where it was moved to if it
was not deleted. -/
structure Moves (sha256 : Bytes → Bytes) (h : List ReplayEvent) (q : Queue) : Prop where
  inv : q.Inv sha256
  once : ∀ k, (moved k h).Nodup
  apart : ∀ k k' i, i ∈ moved k h → i ∈ moved k' h → k = k'
  known : ∀ k, ∀ i ∈ moved k h, i ≤ q.lastId
  settled : ∀ k, ∀ i ∈ moved k h, ∀ s, q.statusOf i = some s → s = k.status

section Steps
variable {sha256 : Bytes → Bytes} {qcfg : QueueConfig} {h : List ReplayEvent} {q : Queue}

/-- A live row was not moved yet. -/
theorem Moves.not_moved (hm : Moves sha256 h q) {i : ℤ} {r : Row} (hr : q.row i = some r)
    (hlive : r.status = .uploading ∨ r.status = .queued) (k : TerminalKind) : i ∉ moved k h := by
  intro hi
  have hst := hm.settled k i hi r.status (statusOf_some.mpr ⟨r, hr, rfl⟩)
  rw [hst] at hlive
  cases k <;> rcases hlive with hl | hl <;> cases hl

/-- A call that changed nothing. -/
theorem movedBy_self (k : TerminalKind) (op : QueueOp) (reply : Except QueueError Reply) (q : Queue) :
    movedBy k (.call op reply q q) = [] := by
  rw [List.eq_nil_iff_forall_not_mem]
  intro i hi
  obtain ⟨hafter, hbefore⟩ := mem_movedBy.mp hi
  exact hbefore hafter

theorem Moves.exec (hm : Moves sha256 h q) (op : QueueOp) (reply : Except QueueError Reply) :
    Moves sha256 (h ++ [.call op reply q (op.exec sha256 qcfg q).2]) (op.exec sha256 qcfg q).2 := by
  have hstep : ∀ i, StepRow qcfg q op _ i (q.row i) ((op.exec sha256 qcfg q).2.row i) := stepRow hm.inv op
  have hlast : q.lastId ≤ (op.exec sha256 qcfg q).2.lastId := exec_lastId_le hm.inv op
  have hinv : (op.exec sha256 qcfg q).2.Inv sha256 := exec_inv qcfg hm.inv op
  have hnew : ∀ k i, i ∈ movedBy k (.call op reply q (op.exec sha256 qcfg q).2) → ∀ k', i ∉ moved k' h := by
    intro k i hi
    obtain ⟨hafter, hbefore⟩ := mem_movedBy.mp hi
    obtain ⟨-, r, hr, hlive⟩ := (hstep i).moves hafter hbefore
    exact hm.not_moved hr hlive
  refine ⟨hinv, fun k => ?_, fun k k' i hi hi' => ?_, fun k i hi => ?_, fun k i hi => ?_⟩
  · rw [moved_snoc]
    refine List.Nodup.append (hm.once k) (hinv.ids.filter _) ?_
    intro i hold hi
    exact hnew k i hi k hold
  · rw [moved_snoc, List.mem_append] at hi hi'
    rcases hi with hi | hi <;> rcases hi' with hi' | hi'
    · exact hm.apart k k' i hi hi'
    · exact absurd hi (hnew k' i hi' k)
    · exact absurd hi' (hnew k i hi k')
    · have hsame := (mem_movedBy.mp hi).1.symm.trans (mem_movedBy.mp hi').1
      exact TerminalKind.status_inj (Option.some.inj hsame)
  · rw [moved_snoc, List.mem_append] at hi
    rcases hi with hi | hi
    · exact (hm.known k i hi).trans hlast
    · obtain ⟨r, hr, -⟩ := statusOf_some.mp (mem_movedBy.mp hi).1
      obtain ⟨hmem, rfl⟩ := Queue.row_mem hr
      exact hinv.bound r hmem
  · rw [moved_snoc, List.mem_append] at hi
    rcases hi with hi | hi
    · exact (hstep i).settles (hm.known k i hi) (hm.settled k i hi)
    · intro s hs
      have hsame := hs.symm.trans (mem_movedBy.mp hi).1
      exact Option.some.inj hsame

theorem Moves.note (hm : Moves sha256 h q) {e : ReplayEvent} (he : ∀ k, movedBy k e = []) :
    Moves sha256 (h ++ [e]) q := by
  have hsame : ∀ k, moved k (h ++ [e]) = moved k h := by
    intro k
    rw [moved_snoc, he, List.append_nil]
  refine ⟨hm.inv, ?_, ?_, ?_, ?_⟩ <;> simp only [hsame]
  · exact hm.once
  · exact hm.apart
  · exact hm.known
  · exact hm.settled

/-! ### Counting it -/

/-- Every row that was moved is counted once, is the one whose terminal write is
staged, or was missed. -/
structure Tallied (sha256 : Bytes → Bytes) (staged : Option PendingTerminal) (h : List ReplayEvent) (q : Queue) :
    Prop where
  moves : Moves sha256 h q
  single : ∀ k, (counted k h).Nodup
  sound : ∀ k, ∀ i ∈ counted k h, i ∈ moved k h
  accounted : ∀ k, ∀ i ∈ moved k h, i ∈ counted k h ∨ (k = .dropped ∧ Missed h i) ∨
    ∃ p, staged = some p ∧ p.kind = k ∧ p.id = i
  missed : ∀ i, Missed h i → i ∈ moved .dropped h ∧ i ∉ counted .dropped h
  due : ∀ p, staged = some p → p.id ∉ counted p.kind h ∧ ¬ Missed h p.id ∧
    (q.statusOf p.id = some p.kind.status → p.id ∈ moved p.kind h)

variable {staged : Option PendingTerminal}

theorem Tallied.note (ht : Tallied sha256 staged h q) {e : ReplayEvent} (hmoved : ∀ k, movedBy k e = [])
    (hcounted : ∀ k, countedBy k e = []) (hmissed : ∀ i, ¬ e.Misses i) : Tallied sha256 staged (h ++ [e]) q := by
  have hm : ∀ k, moved k (h ++ [e]) = moved k h := by
    intro k
    rw [moved_snoc, hmoved, List.append_nil]
  have hc : ∀ k, counted k (h ++ [e]) = counted k h := by
    intro k
    rw [counted_snoc, hcounted, List.append_nil]
  have hmiss : ∀ i, Missed (h ++ [e]) i ↔ Missed h i := by
    intro i
    rw [missed_snoc, or_iff_left (hmissed i)]
  refine ⟨ht.moves.note hmoved, ?_, ?_, ?_, ?_, ?_⟩ <;> simp only [hm, hc, hmiss]
  · exact ht.single
  · exact ht.sound
  · exact ht.accounted
  · exact ht.missed
  · exact ht.due

/-- A call that failed without effect. -/
theorem Tallied.failed (ht : Tallied sha256 staged h q) (op : QueueOp) (e : QueueError) :
    Tallied sha256 staged (h ++ [.call op (.error e) q q]) q := by
  refine ht.note (fun k => movedBy_self k op _ q) (fun k => rfl) fun i hi => ?_
  cases op <;> simp [ReplayEvent.Misses] at hi

/-- A call that is not a mark. -/
theorem Tallied.quiet (ht : Tallied sha256 staged h q) {op : QueueOp} (hop : op.target = none)
    (reply : Except QueueError Reply) :
    Tallied sha256 staged (h ++ [.call op reply q (op.exec sha256 qcfg q).2]) (op.exec sha256 qcfg q).2 := by
  have hmoved : ∀ (k : TerminalKind) i, (op.exec sha256 qcfg q).2.statusOf i = some k.status →
      q.statusOf i = some k.status := by
    intro k i hafter
    by_contra hbefore
    have hs : StepRow qcfg q op _ i _ _ := stepRow ht.moves.inv op i
    rw [(hs.moves hafter hbefore).1] at hop
    cases hop
  have hm : ∀ k, movedBy k (.call op reply q (op.exec sha256 qcfg q).2) = [] := by
    intro k
    rw [List.eq_nil_iff_forall_not_mem]
    intro i hi
    obtain ⟨hafter, hbefore⟩ := mem_movedBy.mp hi
    exact hbefore (hmoved k i hafter)
  have hc : ∀ k, countedBy k (.call op reply q (op.exec sha256 qcfg q).2) = [] := by
    intro k
    cases reply with
    | error e => rfl
    | ok x => simp [countedBy, hop]
  have hmiss : ∀ i, ¬ (ReplayEvent.call op reply q (op.exec sha256 qcfg q).2).Misses i := by
    intro i
    cases op <;> first | exact id | cases hop
  have hnote := ht.note hm hc hmiss
  refine { hnote with moves := ht.moves.exec op reply, due := ?_ }
  intro p hp
  obtain ⟨huncounted, hunmissed, hstatus⟩ := hnote.due p hp
  exact ⟨huncounted, hunmissed, fun hafter => hstatus (hmoved p.kind p.id hafter)⟩

/-- A row in hand that is not moved may have its terminal write staged. -/
theorem Tallied.stage (ht : Tallied sha256 none h q) (p : PendingTerminal) {r : Row} (hr : q.row p.id = some r)
    (hup : r.status = .uploading) : Tallied sha256 (some p) h q := by
  have hnot : ∀ k, p.id ∉ moved k h := ht.moves.not_moved hr (Or.inl hup)
  refine { ht with accounted := fun k i hi => ?_, due := ?_ }
  · rcases ht.accounted k i hi with h | h | ⟨p', hp', -⟩
    · exact Or.inl h
    · exact Or.inr (Or.inl h)
    · cases hp'
  · rintro _ ⟨⟩
    refine ⟨fun hc => hnot _ (ht.sound _ _ hc), fun hmiss => hnot _ (ht.missed _ hmiss).1, fun hst => ?_⟩
    obtain ⟨r', hr', hst'⟩ := statusOf_some.mp hst
    rw [hr] at hr'
    cases hr'
    rw [hup] at hst'
    cases hk : p.kind <;> rw [hk] at hst' <;> cases hst'

/-- A mark that returned without an error: if it left its row in a terminal
status, the row is counted, and nothing is staged any more. -/
theorem Tallied.marked (ht : Tallied sha256 staged h q) {op : QueueOp} {i : ℤ} (hop : op.target = some i) (x : Reply)
    (hfree : ∀ k, (op.exec sha256 qcfg q).2.statusOf i = some k.status →
      i ∉ counted k h ∧ ¬ Missed h i ∧ (q.statusOf i = some k.status → i ∈ moved k h))
    (hstaged : ∀ p, staged = some p → p.id = i ∧ (op.exec sha256 qcfg q).2.statusOf i = some p.kind.status) :
    Tallied sha256 none (h ++ [.call op (.ok x) q (op.exec sha256 qcfg q).2]) (op.exec sha256 qcfg q).2 := by
  have hs : ∀ j, StepRow qcfg q op _ j (q.row j) ((op.exec sha256 qcfg q).2.row j) := stepRow ht.moves.inv op
  have hcounted : ∀ k j, j ∈ countedBy k (.call op (.ok x) q (op.exec sha256 qcfg q).2) ↔
      j = i ∧ (op.exec sha256 qcfg q).2.statusOf i = some k.status := by
    intro k j
    rw [mem_countedBy, hop]
    constructor
    · rintro ⟨-, ⟨⟩, hst⟩
      exact ⟨rfl, hst⟩
    · rintro ⟨rfl, hst⟩
      exact ⟨⟨x, rfl⟩, rfl, hst⟩
  have hunmissed : ∀ j, ¬ (ReplayEvent.call op (.ok x) q (op.exec sha256 qcfg q).2).Misses j := by
    intro j
    cases op <;> exact id
  refine ⟨ht.moves.exec op _, fun k => ?_, fun k j hj => ?_, fun k j hj => ?_, fun j hj => ?_, fun p hp => by cases hp⟩
  · rw [counted_snoc]
    refine List.Nodup.append (ht.single k) ?_ ?_
    · simp only [countedBy, hop]
      exact (List.nodup_singleton i).filter _
    · intro j hold hj
      obtain ⟨rfl, hst⟩ := (hcounted k j).mp hj
      exact (hfree k hst).1 hold
  · rw [counted_snoc, List.mem_append] at hj
    rw [moved_snoc, List.mem_append]
    rcases hj with hj | hj
    · exact Or.inl (ht.sound k j hj)
    · obtain ⟨rfl, hst⟩ := (hcounted k j).mp hj
      by_cases hbefore : q.statusOf j = some k.status
      · exact Or.inl ((hfree k hst).2.2 hbefore)
      · exact Or.inr (mem_movedBy.mpr ⟨hst, hbefore⟩)
  · rw [moved_snoc, List.mem_append] at hj
    rw [counted_snoc, List.mem_append, missed_snoc]
    rcases hj with hj | hj
    · rcases ht.accounted k j hj with hc | ⟨hk, hmiss⟩ | ⟨p, hp, rfl, rfl⟩
      · exact Or.inl (Or.inl hc)
      · exact Or.inr (Or.inl ⟨hk, Or.inl hmiss⟩)
      · obtain ⟨hid, hst⟩ := hstaged p hp
        exact Or.inl (Or.inr ((hcounted p.kind p.id).mpr ⟨hid, hst⟩))
    · obtain ⟨hafter, hbefore⟩ := mem_movedBy.mp hj
      have htarget := ((hs j).moves hafter hbefore).1
      rw [hop] at htarget
      cases htarget
      exact Or.inl (Or.inr ((hcounted k i).mpr ⟨rfl, hafter⟩))
  · rw [missed_snoc, or_iff_left (hunmissed j)] at hj
    obtain ⟨hm, hc⟩ := ht.missed j hj
    rw [moved_snoc, counted_snoc, List.mem_append, List.mem_append]
    refine ⟨Or.inl hm, ?_⟩
    rintro (hold | hnew)
    · exact hc hold
    · obtain ⟨rfl, hst⟩ := (hcounted .dropped j).mp hnew
      exact (hfree .dropped hst).2.1 hj

variable (sha256 qcfg q) in
/-- The terminal write fails without effect or leaves the row where it should be. -/
theorem terminalOp_exec (p : PendingTerminal) (now : ℚ) :
    (∃ e, (terminalOp p now).exec sha256 qcfg q = (.error e, q)) ∨
    (((terminalOp p now).exec sha256 qcfg q).1 = .ok .done ∧
      ((terminalOp p now).exec sha256 qcfg q).2.statusOf p.id = some p.kind.status) := by
  cases hk : p.kind with
  | uploaded =>
    simp only [terminalOp, hk]
    rcases q.markUploaded_cases p.id now with ⟨e, he⟩ | ⟨r, hr, hst, he⟩ | ⟨r, hr, -, he⟩ <;>
      simp only [QueueOp.exec, he, Prod.map_apply, Except.map, id_eq]
    · exact Or.inl ⟨e, rfl⟩
    · exact Or.inr ⟨trivial, statusOf_some.mpr ⟨r, hr, hst⟩⟩
    · exact Or.inr ⟨trivial, statusOf_some.mpr ⟨_, q.row_set_self (Queue.keeps_uploadRow now) hr, rfl⟩⟩
  | dropped =>
    simp only [terminalOp, hk]
    rcases q.forceDropped_cases p.id p.reason now with ⟨e, he⟩ | ⟨r, hr, hst, he⟩ | ⟨r, hr, -, he⟩ <;>
      simp only [QueueOp.exec, he, Prod.map_apply, Except.map, id_eq]
    · exact Or.inl ⟨e, rfl⟩
    · exact Or.inr ⟨trivial, statusOf_some.mpr ⟨r, hr, hst⟩⟩
    · exact Or.inr ⟨trivial, statusOf_some.mpr ⟨_, q.row_set_self (Queue.keeps_dropRow p.reason now) hr, rfl⟩⟩

/-- A staged write that failed after it took effect stays staged. -/
theorem Tallied.ambiguous {p : PendingTerminal} (ht : Tallied sha256 (some p) h q) (now : ℚ) (e : QueueError) :
    Tallied sha256 (some p)
      (h ++ [.call (terminalOp p now) (.error e) q ((terminalOp p now).exec sha256 qcfg q).2])
      ((terminalOp p now).exec sha256 qcfg q).2 := by
  rcases terminalOp_exec sha256 qcfg q p now with ⟨e', he⟩ | ⟨-, hst⟩
  · rw [he]
    exact ht.failed _ e
  have hmoved : ∀ k j, j ∈ movedBy k (.call (terminalOp p now) (.error e) q
      ((terminalOp p now).exec sha256 qcfg q).2) → p.kind = k ∧ p.id = j := by
    intro k j hj
    obtain ⟨hafter, hbefore⟩ := mem_movedBy.mp hj
    have hs : StepRow qcfg q (terminalOp p now) _ j _ _ := stepRow ht.moves.inv (terminalOp p now) j
    have htarget := (hs.moves hafter hbefore).1
    rw [terminalOp_target] at htarget
    cases htarget
    exact ⟨TerminalKind.status_inj (Option.some.inj (hst.symm.trans hafter)), rfl⟩
  have hcounted : ∀ k, counted k (h ++ [.call (terminalOp p now) (.error e) q
      ((terminalOp p now).exec sha256 qcfg q).2]) = counted k h := by
    intro k
    rw [counted_snoc]
    exact List.append_nil _
  have hmiss : ∀ j, Missed (h ++ [.call (terminalOp p now) (.error e) q
      ((terminalOp p now).exec sha256 qcfg q).2]) j ↔ Missed h j := by
    intro j
    rw [missed_snoc, or_iff_left]
    unfold terminalOp
    cases p.kind <;> exact id
  refine ⟨ht.moves.exec _ _, fun k => ?_, fun k j hj => ?_, fun k j hj => ?_, fun j hj => ?_, ?_⟩
  · rw [hcounted]
    exact ht.single k
  · rw [hcounted] at hj
    rw [moved_snoc]
    exact List.mem_append_left _ (ht.sound k j hj)
  · rw [moved_snoc, List.mem_append] at hj
    rw [hcounted, hmiss]
    rcases hj with hj | hj
    · exact ht.accounted k j hj
    · exact Or.inr (Or.inr ⟨p, rfl, hmoved k j hj⟩)
  · rw [hmiss] at hj
    rw [hcounted, moved_snoc]
    exact ⟨List.mem_append_left _ (ht.missed j hj).1, (ht.missed j hj).2⟩
  · rintro _ ⟨⟩
    obtain ⟨huncounted, hunmissed, hstatus⟩ := ht.due p rfl
    rw [hcounted, hmiss, moved_snoc, List.mem_append]
    refine ⟨huncounted, hunmissed, fun hafter => ?_⟩
    by_cases hbefore : q.statusOf p.id = some p.kind.status
    · exact Or.inl (hstatus hbefore)
    · exact Or.inr (mem_movedBy.mpr ⟨hafter, hbefore⟩)

/-- A `MarkFailed` drops the row exactly when it uses up the retries. -/
theorem markFailed_exec {i : ℤ} {r : Row} (hr : q.row i = some r) (hup : r.status = .uploading) (reason : Bytes)
    {maxRetries : ℤ} (hm : 0 < maxRetries) (now : ℚ) :
    ((QueueOp.markFailed i reason maxRetries now).exec sha256 qcfg q).1 = .ok .done ∧
    (((QueueOp.markFailed i reason maxRetries now).exec sha256 qcfg q).2.statusOf i =
      if maxRetries ≤ (r.retryCount + 1 : ℕ) then some .dropped else some .queued) := by
  have heff : Queue.effectiveMaxRetries qcfg maxRetries = maxRetries := if_neg (by omega)
  rcases q.markFailed_cases qcfg i reason maxRetries now with ⟨e, he⟩ | ⟨s, hs, -, he⟩
  · simp [Queue.markFailed, transaction, hr, hup] at he
  · rw [hr] at hs
    cases hs
    simp only [QueueOp.exec, he, Prod.map_apply, Except.map, id_eq, true_and]
    rw [Queue.statusOf, q.row_set_self (Queue.keeps_failRow _ reason now) hr, heff]
    simp only [Option.map_some, Queue.failRow]
    split_ifs <;> rfl

/-- A `MarkFailed` of the row in hand that failed after it took effect: when it
dropped the row, the row was missed. -/
theorem Tallied.markFailed (ht : Tallied sha256 none h q) {i : ℤ} {r : Row} (hr : q.row i = some r)
    (hup : r.status = .uploading) (reason : Bytes) {maxRetries : ℤ} (hm : 0 < maxRetries) (now : ℚ) (e : QueueError) :
    Tallied sha256 none
      (h ++ [.call (.markFailed i reason maxRetries now) (.error e) q
        ((QueueOp.markFailed i reason maxRetries now).exec sha256 qcfg q).2])
      ((QueueOp.markFailed i reason maxRetries now).exec sha256 qcfg q).2 := by
  obtain ⟨-, hst⟩ := @markFailed_exec sha256 qcfg q i r hr hup reason maxRetries hm now
  generalize hq' : ((QueueOp.markFailed i reason maxRetries now).exec sha256 qcfg q).2 = q' at hst ⊢
  have hbefore : ∀ k : TerminalKind, q.statusOf i ≠ some k.status := by
    intro k hk
    obtain ⟨s, hs, hst'⟩ := statusOf_some.mp hk
    rw [hr] at hs
    cases hs
    rw [hup] at hst'
    cases k <;> cases hst'
  have hnot : ∀ k, i ∉ moved k h := ht.moves.not_moved hr (Or.inl hup)
  have hmoved : ∀ k j, j ∈ movedBy k (.call (.markFailed i reason maxRetries now) (.error e) q q') →
      k = .dropped ∧ j = i ∧ maxRetries ≤ (r.retryCount + 1 : ℕ) := by
    intro k j hj
    obtain ⟨hafter, hbefore⟩ := mem_movedBy.mp hj
    have hs : StepRow qcfg q (.markFailed i reason maxRetries now) _ j _ _ := stepRow ht.moves.inv _ j
    rw [hq'] at hs
    obtain ⟨rfl⟩ : i = j := Option.some.inj (hs.moves hafter hbefore).1
    rw [hst] at hafter
    split_ifs at hafter with hlimit
    · have hk : k = .dropped := by
        cases k with
        | uploaded => cases hafter
        | dropped => rfl
      exact ⟨hk, rfl, hlimit⟩
    · cases k <;> cases hafter
  have hmiss : ∀ j, (ReplayEvent.call (.markFailed i reason maxRetries now) (.error e) q q').Misses j ↔
      j = i ∧ maxRetries ≤ (r.retryCount + 1 : ℕ) := by
    intro j
    constructor
    · rintro ⟨rfl, -, s, hs, hlimit⟩
      rw [hr] at hs
      cases hs
      exact ⟨rfl, hlimit⟩
    · rintro ⟨rfl, hlimit⟩
      refine ⟨rfl, fun hsame => ?_, r, hr, hlimit⟩
      rw [if_pos hlimit, hsame] at hst
      exact hbefore .dropped hst
  have hcounted : ∀ k, counted k (h ++ [.call (.markFailed i reason maxRetries now) (.error e) q q']) =
      counted k h := by
    intro k
    rw [counted_snoc]
    exact List.append_nil _
  have hmoves := @Moves.exec sha256 qcfg h q ht.moves (.markFailed i reason maxRetries now) (.error e)
  rw [hq'] at hmoves
  refine ⟨hmoves, fun k => ?_, fun k j hj => ?_, fun k j hj => ?_, fun j hj => ?_, fun p hp => by cases hp⟩
  · rw [hcounted]
    exact ht.single k
  · rw [hcounted] at hj
    rw [moved_snoc]
    exact List.mem_append_left _ (ht.sound k j hj)
  · rw [moved_snoc, List.mem_append] at hj
    rw [hcounted, missed_snoc, hmiss]
    rcases hj with hj | hj
    · rcases ht.accounted k j hj with hc | ⟨hk, hold⟩ | ⟨p, hp, -⟩
      · exact Or.inl hc
      · exact Or.inr (Or.inl ⟨hk, Or.inl hold⟩)
      · cases hp
    · obtain ⟨hk, hji, hlimit⟩ := hmoved k j hj
      exact Or.inr (Or.inl ⟨hk, Or.inr ⟨hji, hlimit⟩⟩)
  · rw [missed_snoc, hmiss] at hj
    rw [hcounted, moved_snoc, List.mem_append]
    rcases hj with hold | ⟨rfl, hlimit⟩
    · exact ⟨Or.inl (ht.missed j hold).1, (ht.missed j hold).2⟩
    · rw [if_pos hlimit] at hst
      exact ⟨Or.inr (mem_movedBy.mpr ⟨hst, hbefore .dropped⟩), fun hc => hnot _ (ht.sound _ _ hc)⟩

end Steps

/-! ### The program -/

/-- The items that are still to come are claimed as they were handed out. -/
structure Held (rest : List QueuedItem) (q : Queue) : Prop where
  nodup : (rest.map QueuedItem.id).Nodup
  row : ∀ item ∈ rest, ∃ r, q.row item.id = some r ∧ r.status = .uploading ∧ r.retryCount = item.retryCount

theorem held_nil (q : Queue) : Held [] q := ⟨List.nodup_nil, fun item hitem => by cases hitem⟩

theorem Held.tail {item : QueuedItem} {rest : List QueuedItem} {q : Queue} (hh : Held (item :: rest) q) :
    item.id ∉ rest.map QueuedItem.id ∧ Held rest q := by
  have hnodup := hh.nodup
  rw [List.map_cons, List.nodup_cons] at hnodup
  exact ⟨hnodup.1, hnodup.2, fun other hother => hh.row other (List.mem_cons_of_mem _ hother)⟩

/-- A call that changes none of the items. -/
theorem Held.of_row {rest : List QueuedItem} {q q' : Queue} (hh : Held rest q)
    (hrow : ∀ item ∈ rest, q'.row item.id = q.row item.id) : Held rest q' := by
  refine ⟨hh.nodup, fun item hitem => ?_⟩
  rw [hrow item hitem]
  exact hh.row item hitem

namespace Counting

/-- `due` is the counter that is about to be raised for a mark that returned. -/
structure Batch (sha256 : Bytes → Bytes) (staged : Option PendingTerminal) (due : Option TerminalKind)
    (pending : Option PendingTerminal) (rest : List QueuedItem) (w : World) : Prop where
  tallied : Tallied sha256 staged w.log w.replayer.queue
  metric : ∀ k, (counted k w.log).length = w.replayer.metrics.count k + if due = some k then 1 else 0
  terminal : w.replayer.pendingTerminal = pending
  held : Held rest w.replayer.queue

/-- Between interactions of different ticks. -/
def Even (sha256 : Bytes → Bytes) (w : World) : Prop :=
  Batch sha256 w.replayer.pendingTerminal none w.replayer.pendingTerminal [] w

variable {sha256 : Bytes → Bytes} {qcfg : QueueConfig} {cfg : ReplayConfig} {env : ℕ → Choice}
  {decorateResume : Bytes → Bytes} {staged pending : Option PendingTerminal} {due : Option TerminalKind}
  {rest : List QueuedItem} {w : World}

theorem Batch.even (hw : Batch sha256 staged none staged rest w) : Even sha256 w := by
  unfold Even
  rw [hw.terminal]
  exact ⟨hw.tallied, hw.metric, hw.terminal, held_nil _⟩

theorem Batch.of_eq {w' : World} (hw : Batch sha256 staged due pending rest w)
    (hq : w'.replayer.queue = w.replayer.queue) (hl : w'.log = w.log)
    (hm : ∀ k, w'.replayer.metrics.count k = w.replayer.metrics.count k)
    (ht : w'.replayer.pendingTerminal = w.replayer.pendingTerminal) : Batch sha256 staged due pending rest w' where
  tallied := by
    rw [hq, hl]
    exact hw.tallied
  metric := by
    intro k
    rw [hl, hm]
    exact hw.metric k
  terminal := ht.trans hw.terminal
  held := hq ▸ hw.held

/-- A note in the log, or a send. -/
theorem Batch.note (hw : Batch sha256 staged due pending rest w) {e : ReplayEvent}
    (he : ∀ op reply before after, e ≠ .call op reply before after) :
    Batch sha256 staged due pending rest (w.record e) := by
  have hmoved : ∀ k, movedBy k e = [] := by
    intro k
    cases e <;> first | rfl | exact absurd rfl (he _ _ _ _)
  have hcounted : ∀ k, countedBy k e = [] := by
    intro k
    cases e <;> first | rfl | exact absurd rfl (he _ _ _ _)
  have hmissed : ∀ i, ¬ e.Misses i := by
    intro i
    cases e <;> first | exact id | exact absurd rfl (he _ _ _ _)
  refine ⟨hw.tallied.note hmoved hcounted hmissed, fun k => ?_, hw.terminal, hw.held⟩
  rw [World.record, counted_snoc, hcounted, List.append_nil]
  exact hw.metric k

/-- What a call leaves of the fields it does not touch. -/
theorem Batch.record (hw : Batch sha256 staged due pending rest w) {op : QueueOp} {reply : Except QueueError Reply}
    {q' : Queue} {staged' : Option PendingTerminal} {due' : Option TerminalKind} {rest' : List QueuedItem}
    (ht : Tallied sha256 staged' (w.log ++ [.call op reply w.replayer.queue q']) q')
    (hd : ∀ k, (countedBy k (.call op reply w.replayer.queue q')).length + (if due = some k then 1 else 0) =
      if due' = some k then 1 else 0)
    (hh : Held rest' q') :
    Batch sha256 staged' due' pending rest' ((w.setQueue q').record (.call op reply w.replayer.queue q')) := by
  refine ⟨ht, fun k => ?_, hw.terminal, hh⟩
  rw [World.record, counted_snoc, List.length_append]
  have hold := hw.metric k
  have hnew := hd k
  simp only [World.setQueue]
  omega

/-- A call that is not a mark and changes none of the items. -/
theorem Batch.quiet (hw : Batch sha256 staged due pending rest w) {op : QueueOp} (hop : op.target = none)
    (hrow : ∀ item ∈ rest, (op.exec sha256 qcfg w.replayer.queue).2.row item.id = w.replayer.queue.row item.id)
    (fault : Fault) : Batch sha256 staged due pending rest (w.endCall sha256 qcfg op fault).2 := by
  have hcounted : ∀ k reply q', countedBy k (.call op reply w.replayer.queue q') = [] := by
    intro k reply q'
    cases reply with
    | error e => rfl
    | ok x => simp [countedBy, hop]
  rcases @endCall_cases sha256 qcfg w op fault with ⟨-, -, h⟩ | ⟨e, -, h⟩ | ⟨e, -, h⟩
  · rw [h]
    exact hw.record (hw.tallied.quiet hop _) (by simp [hcounted]) (hw.held.of_row hrow)
  · rw [h]
    exact hw.record (hw.tallied.failed op e) (by simp [hcounted]) hw.held
  · rw [h]
    exact hw.record (hw.tallied.quiet hop _) (by simp [hcounted]) (hw.held.of_row hrow)

theorem Batch.stable : Stable sha256 qcfg (Batch sha256 staged due pending rest) where
  enqueue := by
    intro w x hw
    refine Batch.quiet hw (show (QueueOp.enqueue x.1 x.2.1 x.2.2).target = none from rfl) (fun item hitem => ?_) .none
    obtain ⟨r, hr, -⟩ := hw.held.row item hitem
    have hs : StepRow qcfg _ _ _ item.id _ _ := stepRow hw.tallied.moves.inv (.enqueue x.1 x.2.1 x.2.2) item.id
    rcases hs.of_enqueue with h | ⟨h, -⟩
    · exact h
    · rw [hr] at h
      cases h
  next := fun _ _ hw => hw.of_eq rfl rfl (fun _ => rfl) rfl

theorem triple_choose : Triple (Batch sha256 staged due pending rest) (choose sha256 qcfg env)
    fun _ => Batch sha256 staged due pending rest :=
  (VmAgent.triple_choose Batch.stable).weaken fun _ _ h => h.1

/-- Without a batch, a call that is not a mark keeps the assertion. -/
theorem triple_quiet {op : ℚ → QueueOp} (hop : ∀ now, (op now).target = none) :
    Triple (Batch sha256 staged due pending []) (call sha256 qcfg env op)
      fun _ => Batch sha256 staged due pending [] :=
  triple_call Batch.stable fun _ now _ hw => hw.quiet (hop now) (fun _ h => by cases h) _

theorem triple_modify {f : Replayer → Replayer} (hq : ∀ r, (f r).queue = r.queue)
    (hm : ∀ r k, (f r).metrics.count k = r.metrics.count k)
    (ht : ∀ r, (f r).pendingTerminal = r.pendingTerminal) :
    Triple (Batch sha256 staged due pending rest) (modifyReplayer f) fun _ => Batch sha256 staged due pending rest := by
  intro w hw
  exact hw.of_eq (hq _) rfl (hm _) (ht _)

theorem count_countTerminal (m : Metrics) (k k' : TerminalKind) :
    (countTerminal k m).count k' = m.count k' + if some k = some k' then 1 else 0 := by
  cases k <;> cases k' <;> rfl

theorem triple_count (k : TerminalKind) :
    Triple (Batch sha256 staged (some k) pending rest)
      (modifyReplayer fun r => { r with metrics := countTerminal k r.metrics })
      fun _ => Batch sha256 staged none pending rest := by
  intro w hw
  refine ⟨hw.tallied, fun k' => ?_, hw.terminal, hw.held⟩
  exact (hw.metric k').trans (count_countTerminal w.replayer.metrics k k').symm

/-! ### The marks -/

variable (pending) in
theorem triple_applyTerminal (p : PendingTerminal) (hp : p.id ∉ rest.map QueuedItem.id) :
    Triple (Batch sha256 (some p) none pending rest) (applyTerminal sha256 qcfg env p) fun reply w =>
      match reply with
      | .ok _ => Batch sha256 none (some p.kind) pending rest w
      | .error _ => Batch sha256 (some p) none pending rest w := by
  refine triple_call Batch.stable ?_
  intro w now n hw
  have hheld : Held rest ((terminalOp p now).exec sha256 qcfg w.replayer.queue).2 := by
    refine hw.held.of_row fun item hitem => ?_
    have hs : StepRow qcfg _ _ _ item.id _ _ := stepRow hw.tallied.moves.inv (terminalOp p now) item.id
    refine hs.of_target (terminalOp_target p now) ?_
    intro he
    exact hp (he ▸ List.mem_map_of_mem hitem)
  rcases @endCall_cases sha256 qcfg w (terminalOp p now) (env n).fault with
    ⟨hreply, -, h⟩ | ⟨e, -, h⟩ | ⟨e, -, h⟩
  · rcases terminalOp_exec sha256 qcfg w.replayer.queue p now with ⟨e, he⟩ | ⟨hok, hst⟩
    · rw [hreply, h, he]
      exact hw.record (hw.tallied.failed _ e) (fun k => by simp [countedBy]) hw.held
    · rw [hreply, h, hok]
      refine hw.record ?_ (fun k => ?_) hheld
      · refine hw.tallied.marked (terminalOp_target p now) _ (fun k hk => ?_) ?_
        · obtain rfl : p.kind = k := TerminalKind.status_inj (Option.some.inj (hst.symm.trans hk))
          exact hw.tallied.due p rfl
        · rintro _ ⟨⟩
          exact ⟨rfl, hst⟩
      · simp only [countedBy, terminalOp_target, Option.toList_some, List.filter_singleton, hst]
        by_cases hk : p.kind = k
        · simp [hk]
        · have hne : p.kind.status ≠ k.status := fun he => hk (TerminalKind.status_inj he)
          simp [hk, hne]
  · rw [h]
    exact hw.record (hw.tallied.failed _ e) (fun k => by simp [countedBy]) hw.held
  · rw [h]
    exact hw.record (hw.tallied.ambiguous now e) (fun k => by simp [countedBy]) hheld

theorem triple_markFailed (item : QueuedItem) (reason : Bytes) {maxRetries : ℤ} (hm : 0 < maxRetries) :
    Triple (Batch sha256 none none pending (item :: rest))
      (call sha256 qcfg env fun now => .markFailed item.id reason maxRetries now) fun reply w =>
        match reply with
        | .ok _ => Batch sha256 none (if maxRetries ≤ (item.retryCount + 1 : ℕ) then some .dropped else none)
            pending rest w
        | .error _ => Batch sha256 none none pending rest w := by
  refine triple_call Batch.stable ?_
  intro w now n hw
  obtain ⟨hnot, hrest⟩ := hw.held.tail
  obtain ⟨r, hr, hup, hretry⟩ := hw.held.row item (List.mem_cons_self ..)
  obtain ⟨hok, hst⟩ := @markFailed_exec sha256 qcfg w.replayer.queue item.id r hr hup reason maxRetries hm now
  rw [hretry] at hst
  have hheld : Held rest ((QueueOp.markFailed item.id reason maxRetries now).exec sha256 qcfg w.replayer.queue).2 := by
    refine hrest.of_row fun other hother => ?_
    have hs : StepRow qcfg _ _ _ other.id _ _ :=
      stepRow hw.tallied.moves.inv (.markFailed item.id reason maxRetries now) other.id
    refine hs.of_target rfl ?_
    intro he
    exact hnot (he ▸ List.mem_map_of_mem hother)
  have hfresh : ∀ k, item.id ∉ moved k w.log := hw.tallied.moves.not_moved hr (Or.inl hup)
  rcases @endCall_cases sha256 qcfg w (.markFailed item.id reason maxRetries now) (env n).fault with
    ⟨hreply, -, h⟩ | ⟨e, -, h⟩ | ⟨e, -, h⟩
  · rw [hreply, h, hok]
    refine hw.record ?_ (fun k => ?_) hheld
    · refine hw.tallied.marked rfl _ (fun k _ => ?_) fun p hp => by cases hp
      refine ⟨fun hc => hfresh k (hw.tallied.sound k _ hc), fun hmiss => hfresh _ (hw.tallied.missed _ hmiss).1, ?_⟩
      intro hbefore
      obtain ⟨s, hs, hterminal⟩ := statusOf_some.mp hbefore
      rw [hr] at hs
      cases hs
      rw [hup] at hterminal
      cases k <;> cases hterminal
    · simp only [countedBy, QueueOp.target, Option.toList_some, List.filter_singleton, hst]
      by_cases hlimit : maxRetries ≤ (item.retryCount + 1 : ℕ)
      · simp only [if_pos hlimit]
        cases k <;> rfl
      · simp only [if_neg hlimit]
        cases k <;> rfl
  · rw [h]
    exact hw.record (hw.tallied.failed _ e) (fun k => by simp [countedBy]) hrest
  · rw [h]
    exact hw.record (hw.tallied.markFailed hr hup reason hm now e) (fun k => by simp [countedBy]) hheld

theorem triple_dequeue (limit : ℤ) :
    Triple (Batch sha256 none none none []) (call sha256 qcfg env fun now => .dequeue limit now) fun reply w =>
      match reply with
      | .ok (.items items) => Batch sha256 none none none items w
      | _ => Batch sha256 none none none [] w := by
  refine triple_call Batch.stable ?_
  intro w now n hw
  have hw' : Batch sha256 none none none [] (w.endCall sha256 qcfg (.dequeue limit now) (env n).fault).2 :=
    hw.quiet rfl (fun _ h => by cases h) _
  rcases hreply : (w.endCall sha256 qcfg (.dequeue limit now) (env n).fault).1 with e | x
  · exact hw'
  cases x with
  | id i => exact hw'
  | done => exact hw'
  | count k => exact hw'
  | items items =>
    obtain ⟨hok, hq⟩ := endCall_ok hreply
    obtain ⟨hnodup, hclaimed, -⟩ := dequeue_items hw.tallied.moves.inv hok
    refine ⟨hw'.tallied, hw'.metric, hw'.terminal, hnodup, fun item hitem => ?_⟩
    obtain ⟨r, -, -, hretry, hafter⟩ := hclaimed item hitem
    rw [← hq] at hafter
    exact ⟨_, hafter, rfl, hretry.symm⟩

/-! ### Recovery and one batch -/

theorem triple_recoverPending :
    Triple (Even sha256) (recoverPending sha256 qcfg env) fun err w =>
      match err with
      | some _ => Even sha256 w
      | none => Batch sha256 none none none [] w := by
  have hterminal : Triple (Even sha256) (recoverTerminal sha256 qcfg env) fun err w =>
      match err with
      | some _ => Even sha256 w
      | none => Batch sha256 none none none [] w := by
    refine Triple.get_bind fun s hs => ?_
    unfold Even at hs
    cases hp : s.replayer.pendingTerminal with
    | none =>
      refine Triple.pure ?_
      rintro w rfl
      rw [hp] at hs
      exact hs
    | some p =>
      rw [hp] at hs
      have hnil : p.id ∉ ([] : List QueuedItem).map QueuedItem.id := List.not_mem_nil
      refine Triple.bind ((triple_applyTerminal (some p) p hnil).pre ?_) fun reply => ?_
      · rintro w rfl
        exact hs
      cases reply with
      | error e => exact Triple.pure fun w hw => hw.even
      | ok x =>
        intro w hw
        refine ⟨hw.tallied, fun k => ?_, rfl, hw.held⟩
        exact (hw.metric k).trans (count_countTerminal w.replayer.metrics p.kind k).symm
  have hrequeue : Triple (Batch sha256 none none none []) (recoverRequeue sha256 qcfg env)
      fun _ => Batch sha256 none none none [] := by
    refine Triple.get_bind fun s hs => ?_
    have hpre : ∀ w, w = s → Batch sha256 none none none [] w := by
      rintro w rfl
      exact hs
    refine Triple.ite (fun _ => Triple.pure hpre) fun _ => ?_
    refine Triple.bind ((triple_quiet fun _ => rfl).pre hpre) fun reply => ?_
    cases reply with
    | error e => exact Triple.pure fun w hw => hw
    | ok x =>
      refine Triple.bind (triple_modify (fun _ => rfl) (fun _ _ => rfl) fun _ => rfl) fun _ => ?_
      exact Triple.pure fun w hw => hw
  refine Triple.bind hterminal fun err => ?_
  cases err with
  | some e => exact Triple.pure fun w hw => hw
  | none =>
    refine Triple.bind hrequeue fun err => ?_
    cases err with
    | some e => exact Triple.pure fun w hw => hw.even
    | none =>
      intro w hw
      exact hw.note (by simp)

theorem Batch.giveUp (hw : Batch sha256 staged due pending rest w) : Batch sha256 staged due pending [] w :=
  ⟨hw.tallied, hw.metric, hw.terminal, held_nil _⟩

theorem triple_requeueRest (ids : List ℤ) {a b : Bool} {err : QueueError → Option TickError}
    {err' : Option TickError} :
    Triple (Batch sha256 none none none rest)
      (do
        match ← call sha256 qcfg env fun _ => .requeueUploading ids with
        | .error e =>
          stageRequeue ids
          return (a, err e)
        | .ok _ => return (b, err')) fun _ => Even sha256 := by
  refine Triple.bind ((triple_quiet fun _ => rfl).pre fun w hw => hw.giveUp) fun reply => ?_
  cases reply with
  | error e =>
    refine Triple.bind (triple_modify (fun _ => rfl) (fun _ _ => rfl) fun _ => rfl) fun _ => ?_
    exact Triple.pure fun w hw => hw.even
  | ok x => exact Triple.pure fun w hw => hw.even

/-- The terminal write of the row in hand, and the rest of the batch after it. -/
theorem triple_finish (p : PendingTerminal) (ids : List ℤ) (err : QueueError → TickError)
    {next : Replay (Bool × Option TickError)} (hp : p.id ∉ rest.map QueuedItem.id)
    (hnext : Triple (Batch sha256 none none none rest) next fun _ => Even sha256) :
    Triple (Batch sha256 (some p) none none rest)
      (do
        match ← applyTerminal sha256 qcfg env p with
        | .error e =>
          stageTerminal p ids
          return (true, some (err e))
        | .ok _ =>
          modifyReplayer fun r => { r with metrics := countTerminal p.kind r.metrics }
          next) fun _ => Even sha256 := by
  refine Triple.bind (triple_applyTerminal none p hp) fun reply => ?_
  cases reply with
  | error e =>
    intro w hw
    exact ⟨hw.tallied, hw.metric, rfl, held_nil _⟩
  | ok x => exact Triple.bind (triple_count p.kind) fun _ => hnext

theorem triple_tickLoop (hm : 0 < cfg.maxRetries) (items : List QueuedItem) (index : ℕ) (rest : List QueuedItem)
    (anyFailed : Bool) :
    Triple (Batch sha256 none none none rest)
      (tickLoop sha256 qcfg cfg env decorateResume items index rest anyFailed) fun _ => Even sha256 := by
  induction rest generalizing index anyFailed with
  | nil => exact Triple.pure fun w hw => hw.even
  | cons item rest ih =>
    unfold tickLoop
    refine Triple.bind triple_choose fun c => Triple.ite (fun _ => triple_requeueRest _) fun _ => ?_
    refine Triple.bind triple_choose fun c => Triple.ite (fun _ => triple_requeueRest _) fun _ => ?_
    refine Triple.bind triple_choose fun c => ?_
    refine Triple.bind (Q := fun _ => Batch sha256 none none none (item :: rest)) ?_ fun _ => ?_
    · intro w hw
      exact hw.note (by simp)
    refine Triple.assume (fun w hw => hw.held.tail.1) fun hnot => ?_
    have hstage : ∀ p : PendingTerminal, p.id = item.id → ∀ w, Batch sha256 none none none (item :: rest) w →
        Batch sha256 (some p) none none rest w := by
      intro p hid w hw
      obtain ⟨r, hr, hup, -⟩ := hw.held.row item (List.mem_cons_self ..)
      rw [← hid] at hr
      exact ⟨hw.tallied.stage p hr hup, hw.metric, hw.terminal, hw.held.tail.2⟩
    cases ho : c.send with
    | ok => exact (triple_finish ⟨.uploaded, item.id, []⟩ _ _ hnot (ih _ _)).pre (hstage _ rfl)
    | failed reason fatal =>
      cases fatal with
      | true => exact (triple_finish ⟨.dropped, item.id, reason⟩ _ _ hnot (ih _ _)).pre (hstage _ rfl)
      | false =>
        refine Triple.bind (triple_modify (fun _ => rfl) (fun _ k => by cases k <;> rfl) fun _ => rfl) fun _ => ?_
        refine Triple.bind (triple_markFailed item reason hm) fun reply => ?_
        cases reply with
        | error e =>
          refine Triple.bind (triple_modify (fun _ => rfl) (fun _ _ => rfl) fun _ => rfl) fun _ => ?_
          exact Triple.pure fun w hw => hw.even
        | ok x =>
          refine Triple.ite (fun hlimit => ?_) fun hlimit => ?_
          · refine Triple.bind (Triple.pre (triple_count .dropped) ?_) fun _ => ih _ _
            intro w hw
            rw [if_pos hlimit] at hw
            exact hw
          · refine (ih _ _).pre ?_
            intro w hw
            rw [if_neg hlimit] at hw
            exact hw

theorem triple_tick (hm : 0 < cfg.maxRetries) :
    Triple (Even sha256) (tick sha256 qcfg cfg env decorateResume) fun _ => Even sha256 := by
  have hbody : Triple (Even sha256) (tickBody sha256 qcfg cfg env decorateResume) fun _ => Even sha256 := by
    refine Triple.bind triple_recoverPending fun err => ?_
    cases err with
    | some e => exact Triple.pure fun w hw => hw
    | none =>
      refine Triple.bind (triple_dequeue _) fun reply => ?_
      rcases reply with e | x
      · exact Triple.pure fun w hw => hw.even
      cases x with
      | items items =>
        refine Triple.ite (fun _ => Triple.pure fun w hw => hw.even) fun _ => ?_
        exact triple_tickLoop hm items 0 items false
      | id i => exact Triple.pure fun w hw => hw.even
      | done => exact Triple.pure fun w hw => hw.even
      | count k => exact Triple.pure fun w hw => hw.even
  refine Triple.bind hbody fun out => ?_
  intro w hw
  exact Batch.note hw (by simp)

/-! ### Whole runs -/

theorem triple_chooseEven : Triple (Even sha256) (choose sha256 qcfg env) fun _ => Even sha256 := by
  intro w hw
  have hchoose : Triple (Batch sha256 w.replayer.pendingTerminal none w.replayer.pendingTerminal [])
      (choose sha256 qcfg env) fun _ => Batch sha256 w.replayer.pendingTerminal none w.replayer.pendingTerminal [] :=
    triple_choose
  exact (hchoose w hw).even

theorem triple_modifyEven {f : Replayer → Replayer} (hq : ∀ r, (f r).queue = r.queue)
    (hm : ∀ r k, (f r).metrics.count k = r.metrics.count k)
    (ht : ∀ r, (f r).pendingTerminal = r.pendingTerminal) :
    Triple (Even sha256) (modifyReplayer f) fun _ => Even sha256 := by
  intro w hw
  have hmodify : Triple (Batch sha256 w.replayer.pendingTerminal none w.replayer.pendingTerminal [])
      (modifyReplayer f) fun _ => Batch sha256 w.replayer.pendingTerminal none w.replayer.pendingTerminal [] :=
    triple_modify hq hm ht
  exact (hmodify w hw).even

theorem triple_callEven {op : ℚ → QueueOp} (hop : ∀ now, (op now).target = none) :
    Triple (Even sha256) (call sha256 qcfg env op) fun _ => Even sha256 := by
  intro w hw
  have hcall : Triple (Batch sha256 w.replayer.pendingTerminal none w.replayer.pendingTerminal [])
      (call sha256 qcfg env op) fun _ => Batch sha256 w.replayer.pendingTerminal none w.replayer.pendingTerminal [] :=
    triple_quiet hop
  exact (hcall w hw).even

theorem triple_recoverEven : Triple (Even sha256) (recoverPending sha256 qcfg env) fun _ => Even sha256 := by
  refine triple_recoverPending.weaken fun err w hw => ?_
  cases err with
  | some e => exact hw
  | none => exact hw.even

theorem triple_startRun : Triple (Even sha256) (startRun sha256 qcfg cfg env) fun _ => Even sha256 := by
  have hstop : Triple (Even sha256) stop fun _ => Even sha256 :=
    triple_modifyEven (fun _ => rfl) (fun _ _ => rfl) fun _ => rfl
  refine Triple.bind triple_recoverEven fun err => ?_
  cases err with
  | some e => exact Triple.bind hstop fun _ => Triple.pure fun w hw => hw
  | none =>
    refine Triple.bind (triple_callEven fun _ => rfl) fun reclaimed => Triple.bind triple_chooseEven fun _ => ?_
    refine Triple.bind (triple_modifyEven (fun _ => rfl) (fun _ _ => rfl) fun _ => rfl) fun _ => ?_
    exact Triple.pure fun w hw => hw

theorem triple_pruneIfDue : Triple (Even sha256) (pruneIfDue sha256 qcfg cfg env) fun _ => Even sha256 := by
  refine Triple.bind triple_chooseEven fun c => Triple.get_bind fun s hs => ?_
  have hpre : ∀ w, w = s → Even sha256 w := by
    rintro w rfl
    exact hs
  cases s.replayer.running with
  | none => exact Triple.pure hpre
  | some l =>
    refine Triple.ite (fun _ => ?_) fun _ => Triple.pure hpre
    refine Triple.bind ((triple_callEven fun _ => rfl).pre hpre) fun _ => Triple.bind triple_chooseEven fun _ => ?_
    exact triple_modifyEven (fun _ => rfl) (fun _ _ => rfl) fun _ => rfl

theorem triple_iterate (hm : 0 < cfg.maxRetries) :
    Triple (Even sha256) (iterate sha256 qcfg cfg env decorateResume) fun _ => Even sha256 := by
  have hstop : Triple (Even sha256) stop fun _ => Even sha256 :=
    triple_modifyEven (fun _ => rfl) (fun _ _ => rfl) fun _ => rfl
  have hlocals : ∀ f, Triple (Even sha256) (setLocals f) fun _ => Even sha256 :=
    fun f => triple_modifyEven (fun _ => rfl) (fun _ _ => rfl) fun _ => rfl
  refine Triple.bind triple_chooseEven fun _ => Triple.ite (fun _ => hstop) fun _ => ?_
  refine Triple.bind (triple_modifyEven (fun _ => rfl) (fun _ k => by cases k <;> rfl) fun _ => rfl) fun _ => ?_
  refine Triple.bind triple_recoverEven fun err => ?_
  cases err with
  | some e => exact Triple.bind triple_chooseEven fun _ => Triple.ite (fun _ => hstop) fun _ => hlocals _
  | none =>
    refine Triple.bind triple_chooseEven fun _ => Triple.ite (fun _ => hstop) fun _ => ?_
    refine Triple.bind triple_chooseEven fun _ => Triple.ite (fun _ => hlocals _) fun _ => ?_
    refine Triple.bind triple_chooseEven fun _ => Triple.ite (fun _ => ?_) fun _ => ?_
    · refine Triple.bind (triple_modifyEven (fun _ => rfl) (fun _ k => by cases k <;> rfl) fun _ => rfl) fun _ => ?_
      exact hlocals _
    · refine Triple.bind (triple_tick hm) fun out => ?_
      refine Triple.bind triple_chooseEven fun _ => Triple.ite (fun _ => hstop) fun _ => ?_
      refine Triple.ite (fun _ => ?_) fun _ => ?_
      · exact Triple.bind (hlocals _) fun _ => triple_pruneIfDue
      · exact Triple.bind (hlocals _) fun _ => triple_pruneIfDue

theorem step_even (hm : 0 < cfg.maxRetries) (hw : Even sha256 w) (op : ReplayOp) :
    Even sha256 (w.step sha256 qcfg cfg decorateResume op) := by
  have hzero : Batch sha256 w.replayer.pendingTerminal none w.replayer.pendingTerminal [] w.rewind :=
    Batch.of_eq hw rfl rfl (fun _ => rfl) rfl
  unfold World.step
  split
  · exact triple_startRun _ hzero.even
  · exact triple_iterate hm _ hzero.even
  · exact hw

theorem run_even (sha256 : Bytes → Bytes) (qcfg : QueueConfig) (cfg : ReplayConfig)
    (decorateResume : Bytes → Bytes) {q : Queue} (hq : q.Inv sha256) (ops : List ReplayOp) :
    Even sha256 ((replayMachine sha256 qcfg cfg decorateResume).run (World.new q) ops) := by
  refine (replayMachine sha256 qcfg cfg decorateResume).run_invariant (P := Even sha256)
    (fun w op hw => step_even (newConfig_maxRetries_pos cfg) hw op) (World.new q) ops ?_
  have hmoves : Moves sha256 [] q := by
    refine ⟨hq, ?_, ?_, ?_, ?_⟩ <;> simp [moved]
  have htallied : Tallied sha256 none [] q := by
    refine ⟨hmoves, ?_, ?_, ?_, ?_, ?_⟩ <;> simp [counted, moved, Missed]
  exact ⟨htallied, fun k => by cases k <;> rfl, rfl, held_nil _⟩

end Counting

/-! ### The numbers -/

/-- A counter is the number of rows moved when no row is staged or missed. -/
theorem Tallied.length_eq {sha256 : Bytes → Bytes} {h : List ReplayEvent} {q : Queue} (ht : Tallied sha256 none h q)
    (k : TerminalKind) :
    (counted k h).length = (moved k h).toFinset.card ↔ ∀ i ∈ moved k h, i ∈ counted k h := by
  rw [List.toFinset_card_of_nodup (ht.moves.once k)]
  constructor
  · intro hlen i hi
    have hperm : (counted k h).Perm (moved k h) :=
      ((ht.single k).subperm (ht.sound k)).perm_of_length_le hlen.ge
    exact hperm.mem_iff.mpr hi
  · intro hall
    have hperm : (counted k h).Perm (moved k h) := by
      rw [List.perm_ext_iff_of_nodup (ht.single k) (ht.moves.once k)]
      exact fun i => ⟨ht.sound k i, hall i⟩
    exact hperm.length_eq

/-- `Metrics` counts the rows that were moved, each row once. -/
def MetricsExact (w : World) : Prop :=
  (w.replayer.pendingTerminal = none →
    w.replayer.metrics.uploaded = (moved .uploaded w.log).toFinset.card ∧
    w.replayer.metrics.dropped = (moved .dropped w.log).toFinset.card) ∧
  (counted .uploaded w.log ++ counted .dropped w.log).Nodup ∧
  w.replayer.metrics.uploaded = (counted .uploaded w.log).length ∧
  w.replayer.metrics.dropped = (counted .dropped w.log).length

theorem Counting.Even.exact_iff {sha256 : Bytes → Bytes} {w : World} (hw : Counting.Even sha256 w) :
    MetricsExact w ↔ (w.replayer.pendingTerminal = none → ∀ i, ¬ Missed w.log i) := by
  have hmetric : ∀ k, (counted k w.log).length = w.replayer.metrics.count k := by
    intro k
    have hk := Counting.Batch.metric hw k
    simpa using hk
  have hu : w.replayer.metrics.uploaded = (counted .uploaded w.log).length := (hmetric .uploaded).symm
  have hd : w.replayer.metrics.dropped = (counted .dropped w.log).length := (hmetric .dropped).symm
  have honce : (counted .uploaded w.log ++ counted .dropped w.log).Nodup := by
    have ht : Tallied sha256 _ w.log w.replayer.queue := Counting.Batch.tallied hw
    refine List.Nodup.append (ht.single _) (ht.single _) fun i hi hi' => ?_
    cases ht.moves.apart _ _ i (ht.sound _ i hi) (ht.sound _ i hi')
  have htallied : w.replayer.pendingTerminal = none → Tallied sha256 none w.log w.replayer.queue := by
    intro hnone
    have ht : Tallied sha256 _ w.log w.replayer.queue := Counting.Batch.tallied hw
    rw [hnone] at ht
    exact ht
  constructor
  · rintro ⟨hexact, -⟩ hnone i hmiss
    have ht := htallied hnone
    have hlen := (hexact hnone).2
    rw [hd, ht.length_eq] at hlen
    exact (ht.missed i hmiss).2 (hlen i (ht.missed i hmiss).1)
  · intro hmissed
    refine ⟨fun hnone => ?_, honce, hu, hd⟩
    have ht := htallied hnone
    have hall : ∀ k, ∀ i ∈ moved k w.log, i ∈ counted k w.log := by
      intro k i hi
      rcases ht.accounted k i hi with h | ⟨-, h⟩ | ⟨p, hp, -⟩
      · exact h
      · exact absurd h (hmissed hnone i)
      · cases hp
    rw [hu, hd, ht.length_eq, ht.length_eq]
    exact ⟨hall _, hall _⟩

/-- In every run the counters are exact at every moment between ticks if and
only if, whenever no terminal write is staged, no `MarkFailed` so far that used
up the retries of its row returned an error after it took effect. -/
theorem replay_metrics_exact (sha256 : Bytes → Bytes) (qcfg : QueueConfig) (cfg : ReplayConfig)
    (decorateResume : Bytes → Bytes) (calls : List QueueCall) (ops : List ReplayOp) :
    let w := fun ops => (replayMachine sha256 qcfg cfg decorateResume).run
      (World.new ((queueMachine sha256 qcfg).run Queue.empty calls)) ops
    (∀ ops₁ ops₂, ops = ops₁ ++ ops₂ → MetricsExact (w ops₁)) ↔
      ∀ ops₁ ops₂, ops = ops₁ ++ ops₂ → (w ops₁).replayer.pendingTerminal = none →
        ∀ i, ¬ Missed (w ops₁).log i := by
  intro w
  have hexact : ∀ ops₁, MetricsExact (w ops₁) ↔
      ((w ops₁).replayer.pendingTerminal = none → ∀ i, ¬ Missed (w ops₁).log i) := by
    intro ops₁
    have heven : Counting.Even sha256 (w ops₁) :=
      Counting.run_even sha256 qcfg cfg decorateResume (run_inv qcfg (Queue.inv_empty sha256) calls) ops₁
    exact heven.exact_iff
  simp only [hexact]

/-- One attempt is allowed; `Send` fails, and `MarkFailed` reports an error for a
change it has made. -/
def sampleLostDrop : List ReplayOp :=
  [.start fun _ => ⟨[], .none, 0, false, true, true, .ok⟩,
   .iterate fun n => ⟨[], if n = 8 then .applied .database else .none, 0, false, true, true, .failed [] false⟩]

/-- The row is dropped, nothing is staged, and the counter of dropped rows is
zero. -/
theorem lost_drop_uncounted :
    let w := (replayMachine id ⟨5⟩ ⟨5, 50, 1, 60, 3600⟩ id).run
      (World.new ((queueMachine id ⟨5⟩).run Queue.empty [⟨.enqueue [1] [10] 0, none⟩])) sampleLostDrop
    w.replayer.pendingTerminal = none ∧ (moved .dropped w.log).toFinset.card = 1 ∧
      w.replayer.metrics.dropped = 0 ∧ ¬ MetricsExact w := by
  intro w
  have hnone : w.replayer.pendingTerminal = none := by decide +kernel
  have hmoved : (moved .dropped w.log).toFinset.card = 1 := by decide +kernel
  have hdropped : w.replayer.metrics.dropped = 0 := by decide +kernel
  refine ⟨hnone, hmoved, hdropped, fun hexact => ?_⟩
  have hcount := (hexact.1 hnone).2
  omega

end AgentWorkflow.VmAgent
