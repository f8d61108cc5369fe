import AgentWorkflow.Lib.Utf8
import AgentWorkflow.Worker.ResultFormat

/-!
# The output of a command (`agent.py`)

`CommandRunner.run` keeps the first `max_output_bytes` of what the process writes and
decodes them with replacement; `_execute_task` reports the result, or the exception
that reporting it raised.
-/

namespace AgentWorkflow.Worker
open AgentWorkflow.Lib AgentWorkflow.Lib.PyStr

/-! ### `drain` -/

structure Drained where
  chunks : List (List UInt8)
  kept : ℕ
  truncated : Bool
deriving DecidableEq

def Drained.empty : Drained := ⟨[], 0, false⟩

def Drained.read (maxOutput : ℕ) (chunk : List UInt8) (d : Drained) : Drained :=
  if d.kept < maxOutput then
    let take := chunk.take (maxOutput - d.kept)
    { chunks := d.chunks ++ [take]
      kept := d.kept + take.length
      truncated := if take.length < chunk.length then true else d.truncated }
  else { d with truncated := true }

/-- `reads` are what `proc.stdout.read` returns; the empty one is the end. -/
def drain (maxOutput : ℕ) (d : Drained) : List (List UInt8) → Drained
  | [] => d
  | chunk :: reads => if chunk = [] then d else drain maxOutput (d.read maxOutput chunk) reads

def written (reads : List (List UInt8)) : List UInt8 := (reads.takeWhile fun chunk => decide (chunk ≠ [])).flatten

theorem drain_chunks (maxOutput : ℕ) (reads : List (List UInt8)) (d : Drained) (hd : d.kept = d.chunks.flatten.length)
    (hle : d.kept ≤ maxOutput) :
    (drain maxOutput d reads).chunks.flatten = (d.chunks.flatten ++ written reads).take maxOutput := by
  induction reads generalizing d with
  | nil =>
    simp only [drain, written, List.takeWhile_nil, List.flatten_nil, List.append_nil]
    exact (List.take_of_length_le (by omega)).symm
  | cons chunk reads ih =>
    by_cases hchunk : chunk = []
    · simp only [drain, written, hchunk, if_true, List.takeWhile_cons, ne_eq, not_true_eq_false, decide_false,
        Bool.false_eq_true, if_false, List.flatten_nil, List.append_nil]
      exact (List.take_of_length_le (by omega)).symm
    · have hwritten : written (chunk :: reads) = chunk ++ written reads := by
        simp [written, hchunk]
      rw [drain, if_neg hchunk, hwritten]
      by_cases hlt : d.kept < maxOutput
      · have hread : d.read maxOutput chunk =
            { chunks := d.chunks ++ [chunk.take (maxOutput - d.kept)]
              kept := d.kept + (chunk.take (maxOutput - d.kept)).length
              truncated := if (chunk.take (maxOutput - d.kept)).length < chunk.length then true
                else d.truncated } := if_pos hlt
        have hlen : (chunk.take (maxOutput - d.kept)).length ≤ maxOutput - d.kept := List.length_take_le _ _
        rw [hread, ih]
        · simp only [List.flatten_append, List.flatten_singleton, List.append_assoc, List.take_append, ← hd,
            List.take_take, min_self, List.length_take]
          congr 2
          rcases Nat.le_total chunk.length (maxOutput - d.kept) with h | h
          · rw [Nat.min_eq_right h]
          · rw [Nat.min_eq_left h, Nat.sub_self, Nat.sub_eq_zero_of_le h]
        · simp [hd]
        · simp only
          omega
      · have hread : d.read maxOutput chunk = { d with truncated := true } := if_neg hlt
        rw [hread, ih ⟨d.chunks, d.kept, true⟩ hd hle]
        have hfull : d.chunks.flatten.length = maxOutput := by omega
        rw [List.take_left' hfull, List.take_left' hfull]

/-- The chunks do not matter: what is kept is the beginning of what was written. -/
theorem drain_flatten (maxOutput : ℕ) (reads : List (List UInt8)) :
    (drain maxOutput .empty reads).chunks.flatten = (written reads).take maxOutput :=
  drain_chunks maxOutput reads .empty rfl (Nat.zero_le _)

theorem drain_truncated (maxOutput : ℕ) (reads : List (List UInt8)) (d : Drained) (hle : d.kept ≤ maxOutput) :
    (drain maxOutput d reads).truncated = true ↔ d.truncated = true ∨ maxOutput < d.kept + (written reads).length := by
  induction reads generalizing d with
  | nil =>
    simp only [drain, written, List.takeWhile_nil, List.flatten_nil, List.length_nil]
    exact ⟨Or.inl, fun h => h.resolve_right (by omega)⟩
  | cons chunk reads ih =>
    by_cases hchunk : chunk = []
    · simp only [drain, written, hchunk, if_true, List.takeWhile_cons, ne_eq, not_true_eq_false, decide_false,
        Bool.false_eq_true, if_false, List.flatten_nil, List.length_nil]
      exact ⟨Or.inl, fun h => h.resolve_right (by omega)⟩
    · have hwritten : (written (chunk :: reads)).length = chunk.length + (written reads).length := by
        simp [written, hchunk]
      have hpos : 0 < chunk.length := List.length_pos_iff.mpr hchunk
      rw [drain, if_neg hchunk, hwritten]
      by_cases hlt : d.kept < maxOutput
      · have htake : (chunk.take (maxOutput - d.kept)).length = min (maxOutput - d.kept) chunk.length := List.length_take
        have hread : d.read maxOutput chunk =
            { chunks := d.chunks ++ [chunk.take (maxOutput - d.kept)]
              kept := d.kept + (chunk.take (maxOutput - d.kept)).length
              truncated := if (chunk.take (maxOutput - d.kept)).length < chunk.length then true
                else d.truncated } := if_pos hlt
        rw [hread, ih]
        · dsimp only
          -- a chunk that is cut fills what was left
          by_cases hcut : (chunk.take (maxOutput - d.kept)).length < chunk.length
          · rw [if_pos hcut]
            simp only [true_or, true_iff]
            omega
          · rw [if_neg hcut]
            have hwhole : (chunk.take (maxOutput - d.kept)).length = chunk.length := by omega
            rw [hwhole, Nat.add_assoc]
        · dsimp only
          omega
      · have hread : d.read maxOutput chunk = { d with truncated := true } := if_neg hlt
        rw [hread, ih ⟨d.chunks, d.kept, true⟩ hle]
        simp only [true_or, true_iff]
        omega

/-- The first `maxOutput` bytes are kept, and `truncated` says whether there were more. -/
theorem drain_output (maxOutput : ℕ) (reads : List (List UInt8)) :
    (drain maxOutput .empty reads).chunks.flatten = (written reads).take (min (written reads).length maxOutput) ∧
      ((drain maxOutput .empty reads).truncated = true ↔ maxOutput < (written reads).length) := by
  constructor
  · rw [drain_flatten, Nat.min_comm, ← List.take_take, List.take_length]
  · rw [drain_truncated maxOutput reads .empty (Nat.zero_le _)]
    simp [Drained.empty]

/-! ### The result -/

structure Ended where
  returncode : ℤ
  timedOut : Bool
  canceled : Bool
  /-- The difference of two readings of a clock that never goes back. -/
  elapsed : ℚ≥0

def Ended.status (e : Ended) : PyStr :=
  if e.returncode = 0 ∧ ¬ e.timedOut ∧ ¬ e.canceled then ofString "success" else ofString "error"

def runResult (maxOutput : ℕ) (reads : List (List UInt8)) (e : Ended) : Dict :=
  let d := drain maxOutput .empty reads
  let output := Utf8.decodeReplace d.chunks.flatten
  [(ofString "status", .str e.status), (ofString "exit_code", .int e.returncode),
    (ofString "elapsed", .float (.finite e.elapsed)), (ofString "log_tail", .str output),
    (ofString "output", .obj
      [(ofString "stdout", .str output), (ofString "exit_code", .int e.returncode),
        (ofString "timed_out", .bool e.timedOut), (ofString "canceled", .bool e.canceled),
        (ofString "truncated", .bool d.truncated)])]

/-- `poll_tasks` hands on no other, and `report_result` checks it again. -/
structure AttemptId where
  text : PyStr
  safe : fullmatch safeAttemptId text = true

def reportResult (attemptId : AttemptId) (result : Dict) : Except PyError Dict :=
  validateResultPayload (reportPayload attemptId.text result)

/-- `_error_kind` -/
def PyError.kind : PyError → String
  | .valueError _ => "ValueError"
  | .unicodeEncodeError => "UnicodeEncodeError"
  | .typeError => "TypeError"
  | .overflowError => "OverflowError"
  | .fileExistsError _ => "FileExistsError"
  | .permissionError _ => "PermissionError"
  | .runtimeError _ => "RuntimeError"

def workerException (e : PyError) : Dict :=
  [(ofString "status", .str (ofString "error")), (ofString "elapsed", .int 0),
    (ofString "log_tail", .str (ofString "worker exception: " ++ ofString e.kind)),
    (ofString "output", .obj [(ofString "exit_code", .int (-1))])]

/-- The payload `_execute_task` has reported when `run` returned `result`. -/
def executeTask (attemptId : AttemptId) (result : Dict) : Except PyError Dict :=
  match reportResult attemptId result with
  | .ok d => .ok d
  | .error e => reportResult attemptId (workerException e)

/-! ### A command that succeeded -/

def succeeded (elapsed : ℚ≥0) : Ended := ⟨0, false, false, elapsed⟩

def outputText (maxOutput : ℕ) (reads : List (List UInt8)) : PyStr := Utf8.decodeReplace ((written reads).take maxOutput)

def successPayload (attemptId : AttemptId) (maxOutput : ℕ) (reads : List (List UInt8)) (elapsed : ℚ≥0) : Dict :=
  [(ofString "attempt_id", .str attemptId.text), (ofString "status", .str (ofString "success")),
    (ofString "output", (Json.get (ofString "output") (runResult maxOutput reads (succeeded elapsed))).getD (.obj [])),
    (ofString "logs", .str (outputText maxOutput reads)), (ofString "duration_s", .float (.finite elapsed))]

/-- The checks that are left when the status and the shape are right. -/
theorem reportResult_succeeded (attemptId : AttemptId) (maxOutput : ℕ) (reads : List (List UInt8)) (elapsed : ℚ≥0) :
    reportResult attemptId (runResult maxOutput reads (succeeded elapsed)) = (do
      checkLogs (.str (outputText maxOutput reads))
      checkSeconds (.finite elapsed)
      return successPayload attemptId maxOutput reads elapsed) := by
  have hattempt : checkAttemptId (.str attemptId.text) = .ok () := by simp [checkAttemptId, attemptId.safe]
  have htext : outputText maxOutput reads = Utf8.decodeReplace (drain maxOutput .empty reads).chunks.flatten := by
    rw [outputText, drain_flatten]
  unfold successPayload
  rw [htext]
  show (do
    checkAttemptId (.str attemptId.text)
    checkStatus (.str (ofString "success"))
    checkOutput _
    checkLogs (.str (Utf8.decodeReplace (drain maxOutput .empty reads).chunks.flatten))
    checkDuration (.float (.finite elapsed))
    return _) = _
  rw [hattempt]
  rfl

theorem checkLogs_decodeReplace (bytes : List UInt8) :
    checkLogs (.str (Utf8.decodeReplace bytes)) = .ok () ↔ Utf8.size (Utf8.pieces bytes) ≤ maxOfflineLogBytes := by
  obtain ⟨b, hb, hlen⟩ := Utf8.encode_decodeReplace bytes
  simp only [checkLogs, hb, hlen]
  split
  next h => simp [h]
  next h => simpa using h

theorem checkSeconds_elapsed (elapsed : ℚ≥0) : checkSeconds (.finite elapsed) = .ok () ↔ elapsed ≤ 31536000 := by
  have hneg : ¬ (elapsed : ℚ) < 0 := not_lt.mpr elapsed.2
  simp only [checkSeconds, PyFloat.isfinite, PyFloat.lt, hneg, decide_false, Bool.not_true, Bool.or_self, Bool.false_or,
    decide_eq_true_eq]
  split
  next h => simpa using (by exact_mod_cast h : (31536000 : ℚ≥0) < elapsed)
  next h => simpa using (by exact_mod_cast not_lt.mp h : elapsed ≤ (31536000 : ℚ≥0))

/-- The payload passes the checks, and it is the one that is reported. -/
structure ReportedAsSuccess (attemptId : AttemptId) (maxOutput : ℕ) (reads : List (List UInt8)) (elapsed : ℚ≥0) : Prop where
  accepted : reportResult attemptId (runResult maxOutput reads (succeeded elapsed)) =
    .ok (successPayload attemptId maxOutput reads elapsed)
  reported : executeTask attemptId (runResult maxOutput reads (succeeded elapsed)) =
    .ok (successPayload attemptId maxOutput reads elapsed)

section Reported
variable {attemptId : AttemptId} {maxOutput : ℕ} {reads : List (List UInt8)} {elapsed : ℚ≥0}

theorem ReportedAsSuccess.fits (h : ReportedAsSuccess attemptId maxOutput reads elapsed) :
    Utf8.size (Utf8.pieces ((written reads).take maxOutput)) ≤ maxOfflineLogBytes ∧ elapsed ≤ 31536000 := by
  have hok := h.accepted
  rw [reportResult_succeeded] at hok
  obtain ⟨⟨⟩, hlogs, hok⟩ := bind_ok hok
  obtain ⟨⟨⟩, hseconds, -⟩ := bind_ok hok
  exact ⟨(checkLogs_decodeReplace _).mp hlogs, (checkSeconds_elapsed elapsed).mp hseconds⟩

theorem reported_of_fits (hsize : Utf8.size (Utf8.pieces ((written reads).take maxOutput)) ≤ maxOfflineLogBytes)
    (helapsed : elapsed ≤ 31536000) : ReportedAsSuccess attemptId maxOutput reads elapsed := by
  have hok : reportResult attemptId (runResult maxOutput reads (succeeded elapsed)) =
      .ok (successPayload attemptId maxOutput reads elapsed) := by
    rw [reportResult_succeeded, outputText, (checkLogs_decodeReplace _).mpr hsize,
      (checkSeconds_elapsed elapsed).mpr helapsed]
    rfl
  exact ⟨hok, by rw [executeTask, hok]⟩

/-- With a third of the limit no output can spoil the result. -/
theorem small_output_reported (hmax : 3 * maxOutput ≤ maxOfflineLogBytes) (helapsed : elapsed ≤ 31536000) :
    ReportedAsSuccess attemptId maxOutput reads elapsed := by
  have hsize := Utf8.size_pieces_le ((written reads).take maxOutput)
  have htake : ((written reads).take maxOutput).length ≤ maxOutput := List.length_take_le _ _
  exact reported_of_fits (by omega) helapsed

end Reported

theorem output_reported_iff (attemptId : AttemptId) (maxOutput : ℕ) (reads : List (List UInt8)) (elapsed : ℚ≥0) :
    ReportedAsSuccess attemptId maxOutput reads elapsed ↔
      Utf8.size (Utf8.pieces ((written reads).take maxOutput)) ≤ maxOfflineLogBytes ∧ elapsed ≤ 31536000 :=
  ⟨fun h => h.fits, fun h => reported_of_fits h.1 h.2⟩

def sampleAttemptId : AttemptId := ⟨sampleAttempt, by decide +kernel⟩

/-- 349,526 bytes that no character has: 1,048,578 bytes once they are replaced. -/
theorem binary_output_not_reported : ¬ ∀ attemptId maxOutput, 1 ≤ maxOutput → maxOutput ≤ 1048576 →
    ∀ reads elapsed, elapsed ≤ 31536000 → ReportedAsSuccess attemptId maxOutput reads elapsed := by
  intro h
  obtain ⟨hsize, -⟩ := (h sampleAttemptId 1048576 (by decide) le_rfl [List.replicate 349526 0xFF] 1 (by norm_num)).fits
  have hwritten : written [List.replicate 349526 0xFF] = List.replicate 349526 0xFF := by
    have hne : (List.replicate 349526 0xFF : List UInt8) ≠ [] := by
      rw [← List.length_pos_iff, List.length_replicate]
      decide
    simp only [written, List.takeWhile_cons, hne, ne_eq, not_false_eq_true, decide_true, if_true, List.takeWhile_nil,
      List.flatten_singleton]
  rw [hwritten, List.take_of_length_le (by rw [List.length_replicate]; decide),
    Utf8.pieces_replicate (by decide)] at hsize
  simp only [Utf8.size, List.map_replicate, Utf8.Piece.size, List.sum_replicate, smul_eq_mul] at hsize
  exact absurd hsize (by decide)

end AgentWorkflow.Worker
