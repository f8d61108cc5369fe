import AgentWorkflow.ControlPlane.Lease
import AgentWorkflow.Lib.PythonJson

/-!
# Submitting a result again

A finished task accepts a second submission of its attempt as a duplicate when
`previous == payload`. `previous` is read back from the stored text, so the comparison
is one of the two submitted payloads; but it is Python's, for which `True == 1`.
-/

namespace AgentWorkflow.ControlPlane
open AgentWorkflow.Lib AgentWorkflow.Lib.Calendar

/-- The `json` module of an interpreter that gives up at some nesting. -/
def pythonJson (limit : ℕ) : JsonLib := ⟨PythonJson.dumps limit, fun t => (PythonJson.loads limit t).getD .null⟩

/-- The same terminal status and the same JSON value. -/
def SameResult (first second : TaskResultRequest) : Prop :=
  terminalStatus second.status = terminalStatus first.status ∧
    (resultPayload first).same (resultPayload second) = true

/-- The two results differ only in that one has a boolean where the other has `0` or `1`. -/
def SameButForBooleans (first second : TaskResultRequest) : Prop :=
  terminalStatus second.status = terminalStatus first.status ∧
    (resultPayload first).same (resultPayload second) = false ∧
    (resultPayload first).asNumbers.same (resultPayload second).asNumbers = true

/-- A later submission counts as a duplicate exactly when it is the same result, is
refused otherwise, and leaves the row as it was. -/
structure OnlyTheSame (first second : TaskResultRequest) (taskId : Text) (db : Db)
    (out : Except Error ResultReply × Db) : Prop where
  accepted : (∃ reply, out.1 = .ok reply ∧ reply.duplicate = true) ↔ SameResult first second
  refused : ¬ SameResult first second → ∃ detail, out.1 = .error (.http 409 detail)
  row : out.2.task taskId = db.task taskId

/-- The row that a completing submission leaves. -/
structure Task.CompletedBy (J : JsonLib) (agent : Agent) (taskId : Text) (body : TaskResultRequest) (r : Task) :
    Prop where
  id : r.id = taskId
  tenant : r.tenantId = agent.tenantId
  agent : assignedAgent r = agent.id
  attempt : r.attemptId = some body.attemptId
  status : r.status = terminalStatus body.status
  result : ∃ encoded, J.dumps (resultPayload body) true = some encoded ∧ r.resultJson = some encoded

theorem Task.CompletedBy.finished {J : JsonLib} {agent : Agent} {taskId : Text} {body : TaskResultRequest} {r : Task}
    (h : r.CompletedBy J agent taskId body) : r.Finished := by
  have hterm := terminalStatus_cases body.status
  rw [← h.status] at hterm
  exact hterm

theorem find_and {α : Type} {p q : α → Bool} {l : List α} {r : α} (h : l.find? p = some r) (hq : q r = true) :
    l.find? (fun x => p x && q x) = some r := by
  induction l with
  | nil => cases h
  | cons x l ih =>
    cases hx : p x with
    | true =>
      rw [List.find?_cons_of_pos hx] at h
      cases h
      exact List.find?_cons_of_pos (by rw [hx, hq]; rfl)
    | false =>
      rw [List.find?_cons_of_neg (by simp [hx])] at h
      rw [List.find?_cons_of_neg (by simp [hx])]
      exact ih h

section
variable {J : JsonLib} {agent : Agent} {taskId : Text} {body : TaskResultRequest} {now : UtcTime} {db : Db}

theorem submitBlock_completes {encoded : Text} {reply : ResultReply} {db' : Db}
    (h : submitBlock J agent taskId body encoded now.isoformat db = .ok (reply, db')) (hnew : reply.duplicate = false) :
    ∃ row ∈ db.tasks, assignedAgent row = agent.id ∧ holdsAttempt agent taskId body.attemptId row = true ∧
      db' = { db with
        tasks := Table.update (holdsAttempt agent taskId body.attemptId)
          (completeRow body encoded now.isoformat) db.tasks } := by
  unfold submitBlock at h
  cases hf : db.tasks.find? (fun r => decide (r.id = taskId) && decide (r.tenantId = agent.tenantId)) with
  | none =>
    rw [hf] at h
    cases h
  | some row =>
    have hrow := List.find?_some hf
    simp only [Bool.and_eq_true, decide_eq_true_eq] at hrow
    rw [hf] at h
    dsimp only at h
    split at h
    · cases h
    · next hagent =>
      split at h
      · cases h
      · next hattempt =>
        split at h
        · split at h
          · cases h
            cases hnew
          · cases h
        · split at h
          · cases h
          · next hrun =>
            split at h
            · cases h
            · cases h
              have hassigned := not_ne_iff.mp hagent
              refine ⟨row, List.mem_of_find?_eq_some hf, hassigned, ?_, rfl⟩
              exact holdsAttempt_iff.mpr ⟨hrow.1, hrow.2, assignedAgent_eq hassigned, not_ne_iff.mp hattempt,
                not_ne_iff.mp hrun⟩

/-- What a submission that completes the task stores. -/
theorem submitResult_completes (hu : Table.Unique Task.id db.tasks) {reply : ResultReply}
    (h : (submitResult J agent taskId body now db).1 = .ok reply) (hnew : reply.duplicate = false) :
    ∃ r, (submitResult J agent taskId body now db).2.task taskId = some r ∧ r.CompletedBy J agent taskId body := by
  unfold submitResult at h ⊢
  cases hd : J.dumps (resultPayload body) true with
  | none =>
    rw [hd] at h
    cases h
  | some encoded =>
    rw [hd] at h
    dsimp only at h ⊢
    unfold transaction at h ⊢
    cases hblock : submitBlock J agent taskId body encoded now.isoformat db with
    | error e =>
      rw [hblock] at h
      cases h
    | ok out =>
      obtain ⟨reply', db'⟩ := out
      rw [hblock] at h
      cases h
      obtain ⟨row, hmem, hagent, hholds, rfl⟩ := submitBlock_completes hblock hnew
      have hheld := holdsAttempt_iff.mp hholds
      refine ⟨completeRow body encoded now.isoformat row, ?_, ?_⟩
      · have hfind := Table.find_of_mem hu hmem
        have hmap := Table.find_map (Table.update_key (p := holdsAttempt agent taskId body.attemptId)
          (completeRow_id body encoded now.isoformat)) taskId db.tasks
        rw [hheld.1] at hfind
        rw [hfind, Option.map_some, if_pos hholds] at hmap
        exact hmap
      · exact ⟨hheld.1, hheld.2.1, hagent, hheld.2.2.2.1, rfl, encoded, hd, rfl⟩

/-- A submission to a finished task of the same agent and attempt. -/
theorem submitResult_again {first : TaskResultRequest} {agent₀ : Agent} {r : Task}
    (hr : db.task taskId = some r) (hdone : r.CompletedBy J agent₀ taskId first) (hagent : agent.id = agent₀.id)
    (htenant : agent.tenantId = agent₀.tenantId) (hattempt : body.attemptId = first.attemptId) :
    submitResult J agent taskId body now db =
      (match J.dumps (resultPayload body) true with
      | none => (.error (.http 422 "task result must be finite JSON"), db)
      | some _ =>
        if terminalStatus first.status = terminalStatus body.status ∧
            (J.loads (orEmptyObject r.resultJson)).eq (resultPayload body) = true then
          (.ok ⟨taskId, terminalStatus body.status, true, body.attemptId⟩, db)
        else (.error (.http 409 "task already completed with a different result"), db)) := by
  have hfind : db.tasks.find? (fun r => decide (r.id = taskId) && decide (r.tenantId = agent.tenantId)) = some r := by
    have htenant' : decide (r.tenantId = agent.tenantId) = true := by
      rw [decide_eq_true_eq, hdone.tenant, htenant]
    exact find_and (p := fun r : Task => decide (r.id = taskId)) hr htenant'
  have hassigned : ¬ assignedAgent r ≠ agent.id := by
    rw [hdone.agent, hagent]
    exact not_not.mpr rfl
  have hsame : ¬ r.attemptId ≠ some body.attemptId := by
    rw [hdone.attempt, hattempt]
    exact not_not.mpr rfl
  have hterm : r.status = .success ∨ r.status = .failed := hdone.finished
  unfold submitResult
  cases J.dumps (resultPayload body) true with
  | none => rfl
  | some encoded =>
    simp only [transaction, submitBlock, hfind, if_neg hassigned, if_neg hsame, if_pos hterm]
    rw [← hdone.status]
    by_cases heq : r.status = terminalStatus body.status ∧
        (J.loads (orEmptyObject r.resultJson)).eq (resultPayload body) = true
    · simp only [if_pos heq]
    · simp only [if_neg heq]

end

/-! ### The comparison -/

theorem loads_nil (limit : ℕ) : PythonJson.loads limit [] = none := rfl

/-- Comparing with the stored text is comparing with the payload it was made from. -/
theorem previous_eq {limit : ℕ} {first : TaskResultRequest} (hfirst : PythonJson.WellFormed (resultPayload first))
    {encoded : Text} (hd : (pythonJson limit).dumps (resultPayload first) true = some encoded)
    (second : TaskResultRequest) :
    ((pythonJson limit).loads (orEmptyObject (some encoded))).eq (resultPayload second) =
      (resultPayload first).asNumbers.same (resultPayload second).asNumbers := by
  have hloads : PythonJson.loads limit encoded = some (PythonJson.arranged true (resultPayload first)) :=
    PythonJson.loads_dumps hfirst hd
  have htext : orEmptyObject (some encoded) = encoded := by
    cases encoded with
    | nil =>
      rw [loads_nil] at hloads
      cases hloads
    | cons c t => rfl
  have hread : (pythonJson limit).loads encoded = PythonJson.arranged true (resultPayload first) := by
    change (PythonJson.loads limit encoded).getD .null = _
    rw [hloads, Option.getD_some]
  rw [htext, hread, PythonJson.eq_arranged, Json.eq_eq_same]

section
variable {limit : ℕ} {agent agent₀ : Agent} {taskId : Text} {first second : TaskResultRequest} {now : UtcTime} {db : Db}
  {r : Task}

theorem again_refused (hr : db.task taskId = some r) (hdone : r.CompletedBy (pythonJson limit) agent₀ taskId first)
    (hagent : agent.id = agent₀.id) (htenant : agent.tenantId = agent₀.tenantId)
    (hattempt : second.attemptId = first.attemptId) (hsecond : PythonJson.WellFormed (resultPayload second))
    (hw : PythonJson.writable limit (resultPayload second) = false) :
    submitResult (pythonJson limit) agent taskId second now db =
      (.error (.http 422 "task result must be finite JSON"), db) := by
  have hnone : (pythonJson limit).dumps (resultPayload second) true = none := by
    rw [← Option.not_isSome_iff_eq_none]
    change ¬ (PythonJson.dumps limit (resultPayload second) true).isSome = true
    rw [PythonJson.dumps_isSome hsecond, hw]
    exact Bool.false_ne_true
  rw [submitResult_again hr hdone hagent htenant hattempt, hnone]

theorem again_compared (hr : db.task taskId = some r) (hdone : r.CompletedBy (pythonJson limit) agent₀ taskId first)
    (hagent : agent.id = agent₀.id) (htenant : agent.tenantId = agent₀.tenantId)
    (hattempt : second.attemptId = first.attemptId) (hfirst : PythonJson.WellFormed (resultPayload first))
    (hsecond : PythonJson.WellFormed (resultPayload second))
    (hw : PythonJson.writable limit (resultPayload second) = true) :
    submitResult (pythonJson limit) agent taskId second now db =
      if terminalStatus second.status = terminalStatus first.status ∧
          (resultPayload first).asNumbers.same (resultPayload second).asNumbers = true then
        (.ok ⟨taskId, terminalStatus second.status, true, second.attemptId⟩, db)
      else (.error (.http 409 "task already completed with a different result"), db) := by
  obtain ⟨encoded, hencoded, hresult⟩ := hdone.result
  obtain ⟨again, hagain⟩ : ∃ t, (pythonJson limit).dumps (resultPayload second) true = some t := by
    rw [← Option.isSome_iff_exists]
    change (PythonJson.dumps limit (resultPayload second) true).isSome = true
    rw [PythonJson.dumps_isSome hsecond, hw]
  rw [submitResult_again hr hdone hagent htenant hattempt, hagain, hresult, previous_eq hfirst hencoded]
  simp only [eq_comm (a := terminalStatus first.status)]

/-- One submission to a completed task, whatever happened in between. -/
theorem onlyTheSame_iff (hr : db.task taskId = some r)
    (hdone : r.CompletedBy (pythonJson limit) agent₀ taskId first) (hagent : agent.id = agent₀.id)
    (htenant : agent.tenantId = agent₀.tenantId) (hattempt : second.attemptId = first.attemptId)
    (hfirst : PythonJson.WellFormed (resultPayload first)) (hsecond : PythonJson.WellFormed (resultPayload second)) :
    OnlyTheSame first second taskId db (submitResult (pythonJson limit) agent taskId second now db) ↔
      PythonJson.writable limit (resultPayload second) = true ∧ ¬ SameButForBooleans first second := by
  cases hw : PythonJson.writable limit (resultPayload second) with
  | false =>
    rw [again_refused hr hdone hagent htenant hattempt hsecond hw]
    refine ⟨fun h => ?_, fun h => absurd h.1 Bool.false_ne_true⟩
    by_cases hsame : SameResult first second
    · obtain ⟨reply, hreply, -⟩ := h.accepted.mpr hsame
      cases hreply
    · obtain ⟨detail, hdetail⟩ := h.refused hsame
      cases hdetail
  | true =>
    rw [again_compared hr hdone hagent htenant hattempt hfirst hsecond hw]
    have himp : SameResult first second → (resultPayload first).asNumbers.same (resultPayload second).asNumbers = true :=
      fun h => Json.same_asNumbers _ _ h.2
    by_cases heq : terminalStatus second.status = terminalStatus first.status ∧
        (resultPayload first).asNumbers.same (resultPayload second).asNumbers = true
    · rw [if_pos heq]
      cases hsame : (resultPayload first).same (resultPayload second) with
      | true =>
        have hboth : SameResult first second := ⟨heq.1, hsame⟩
        refine ⟨fun _ => ⟨rfl, fun h => ?_⟩, fun _ => ⟨⟨fun _ => hboth, fun _ => ⟨_, rfl, rfl⟩⟩, fun h => ?_, rfl⟩⟩
        · rw [h.2.1] at hsame
          cases hsame
        · exact absurd hboth h
      | false =>
        refine ⟨fun h => ?_, fun h => absurd ⟨heq.1, hsame, heq.2⟩ h.2⟩
        have hboth := h.accepted.mp ⟨_, rfl, rfl⟩
        rw [hboth.2] at hsame
        cases hsame
    · rw [if_neg heq]
      have hnot : ¬ SameResult first second := fun h => heq ⟨h.1, himp h⟩
      refine ⟨fun _ => ⟨rfl, fun h => heq ⟨h.1, h.2.2⟩⟩, fun _ => ⟨⟨?_, fun h => absurd h hnot⟩, fun _ => ⟨_, rfl⟩, rfl⟩⟩
      rintro ⟨reply, hreply, -⟩
      cases hreply

end

def sampleResult (x : Json Char) : TaskResultRequest where
  attemptId := "attempt".toList
  status := .success
  output := [("x".toList, x)]
  logs := []
  durationS := .finite 0

theorem sampleResult_wellFormed {x : Json Char} (hx : PythonJson.WellFormed x) :
    PythonJson.WellFormed (resultPayload (sampleResult x)) := by
  have hzero : PythonJson.IsBinary64 (.finite 0) := ⟨0, by decide, by simp [Binary64.toRat, Binary64.units]⟩
  have hkeys : ["output".toList, "logs".toList, "duration_s".toList].Nodup := by decide
  exact ⟨hkeys, ⟨List.nodup_singleton _, hx, trivial⟩, trivial, hzero, trivial⟩

/-- A task completed with `"x": true`. -/
def sampleCompleted : List Op :=
  sampleClaim ++ [.submitResult sampleWorker "task".toList (sampleResult (.bool true)) (sampleTime 3)]

end AgentWorkflow.ControlPlane
