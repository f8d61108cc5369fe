import AgentWorkflow.Lib.Machine

/-!
# The frames of one execution

`Runner.Execute` after the child has started: one progress frame, two `streamPipe`
goroutines that number their log frames from a shared counter, and the last progress
frame once both are done. Every frame also carries the task's id.
-/

namespace AgentWorkflow.VmAgent.Runner
open AgentWorkflow.Lib

abbrev Bytes := List UInt8

def newline : UInt8 := 0x0A
def carriageReturn : UInt8 := 0x0D

/-! ### Lines -/

/-- `ReadString('\n')`: the line with its end, what is left, and whether the stream ended. -/
def readString : Bytes → Bytes × Bytes × Bool
  | [] => ([], [], true)
  | b :: bs =>
    if b = newline then ([b], bs, false)
    else
      let r := readString bs
      (b :: r.1, r.2.1, r.2.2)

/-- The second half of `trimNewline` -/
def dropReturn (s : Bytes) : Bytes := if s.getLast? = some carriageReturn then s.dropLast else s

def trimNewline (s : Bytes) : Bytes := dropReturn (if s.getLast? = some newline then s.dropLast else s)

/-- A stream split at newlines, one carriage return taken off each line; what follows the
last newline is a line unless it is empty. -/
def outputLines (stream : Bytes) : List Bytes :=
  let pieces := stream.splitOn newline
  (if pieces.getLast? = some [] then pieces.dropLast else pieces).map dropReturn

theorem readString_line {p : Bytes} (hp : newline ∉ p) (rest : Bytes) :
    readString (p ++ newline :: rest) = (p ++ [newline], rest, false) := by
  induction p with
  | nil => rfl
  | cons b p ih =>
    have hb : b ≠ newline := fun h => hp (h ▸ List.mem_cons_self)
    simp only [List.cons_append, readString, if_neg hb, ih fun h => hp (List.mem_cons_of_mem _ h)]

theorem readString_last {s : Bytes} (hs : newline ∉ s) : readString s = (s, [], true) := by
  induction s with
  | nil => rfl
  | cons b s ih =>
    have hb : b ≠ newline := fun h => hs (h ▸ List.mem_cons_self)
    simp only [readString, if_neg hb, ih fun h => hs (List.mem_cons_of_mem _ h)]

theorem trimNewline_line (p : Bytes) : trimNewline (p ++ [newline]) = dropReturn p := by
  simp only [trimNewline, List.getLast?_concat, if_true, List.dropLast_concat]

theorem trimNewline_last {s : Bytes} (hs : newline ∉ s) : trimNewline s = dropReturn s := by
  have hlast : s.getLast? ≠ some newline := fun h => hs (List.mem_of_getLast? h)
  simp only [trimNewline, if_neg hlast]

theorem outputLines_line {p : Bytes} (hp : newline ∉ p) (rest : Bytes) :
    outputLines (p ++ newline :: rest) = dropReturn p :: outputLines rest := by
  have hne := List.splitOn_ne_nil newline rest
  simp only [outputLines, List.splitOn_append_cons_self_of_not_mem hp]
  cases hsplit : rest.splitOn newline with
  | nil => exact absurd hsplit hne
  | cons q qs =>
    rw [List.getLast?_cons_cons, List.dropLast_cons_cons]
    split <;> rfl

theorem outputLines_last {s : Bytes} (hs : newline ∉ s) :
    outputLines s = if s = [] then [] else [dropReturn s] := by
  rw [outputLines, List.splitOn_eq_singleton hs]
  by_cases h : s = []
  · simp [h]
  · simp [h]

/-- One read takes the first line off the stream. -/
theorem readString_spec (s : Bytes) :
    outputLines s =
        (if (readString s).1 = [] then [] else [trimNewline (readString s).1]) ++
          (if (readString s).2.2 then [] else outputLines (readString s).2.1) ∧
      ((readString s).2.2 = false → (readString s).1 ≠ [] ∧ (readString s).2.1.length < s.length) := by
  by_cases hs : newline ∈ s
  · obtain ⟨p, rest, rfl, hp⟩ := List.eq_append_cons_of_mem hs
    rw [readString_line hp, outputLines_line hp, trimNewline_line]
    simp
    omega
  · rw [readString_last hs, outputLines_last hs, trimNewline_last hs]
    simp

/-! ### Frames -/

inductive Stream where
  | stdout
  | stderr
  deriving DecidableEq, Repr

structure ErrorDetail where
  code : String
  message : String
  retryable : Bool
  exitCode : Option ℤ
  deriving DecidableEq, Repr

inductive Frame where
  | progress (seq percent : ℕ) (phase note : String)
  | log (seq : ℕ) (stream : Stream) (level : String) (lines : List Bytes)
  | complete (status : String) (error : Option ErrorDetail)
  deriving DecidableEq, Repr

def Frame.seq : Frame → Option ℕ
  | .progress seq .. => some seq
  | .log seq .. => some seq
  | .complete .. => none

def Frame.logOf (stream : Stream) : Frame → Option (ℕ × List Bytes)
  | .log seq which _ lines => if which = stream then some (seq, lines) else none
  | _ => none

def Frame.isLog : Frame → Bool
  | .log .. => true
  | _ => false

/-- How `cmd.Wait` failed. -/
inductive WaitError where
  | exit (code : ℤ)
  | other (message : String)
  deriving DecidableEq, Repr

/-- What the process and the context come to: `cmd.Wait()` and `ctx.Err()`. -/
structure Ending where
  waitErr : Option WaitError
  ctxErr : Option String
  deriving DecidableEq, Repr

def Ending.report (e : Ending) : String × Option ErrorDetail :=
  match e.ctxErr with
  | some message => ("canceled", some ⟨"err.canceled.user", message, false, none⟩)
  | none =>
    match e.waitErr with
    | none => ("success", none)
    | some (.exit code) =>
      ("error", some ⟨"err.task_execution.nonzero_exit", "exit " ++ toString code, false, some code⟩)
    | some (.other message) => ("error", some ⟨"err.unknown.wait_failed", message, false, none⟩)

/-! ### The goroutines -/

/-- Where one `streamPipe` stands: before a read, holding a line it has no number for, and
holding the numbered frame it is about to send. `eof` is the `err != nil` of the read. -/
inductive Reader where
  | reading (rest : Bytes)
  | numbering (line rest : Bytes) (eof : Bool)
  | sending (line : Bytes) (seq : ℕ) (rest : Bytes) (eof : Bool)
  | done
  deriving DecidableEq, Repr

def Reader.next (rest : Bytes) (eof : Bool) : Reader := if eof then .done else .reading rest

/-- One step of `streamPipe`, with the counter it shares. -/
def streamPipe (which : Stream) (counter : ℕ) : Reader → ℕ × Reader × Option Frame
  | .reading rest =>
    let r := readString rest
    (counter, if r.1 = [] then .next r.2.1 r.2.2 else .numbering r.1 r.2.1 r.2.2, none)
  | .numbering line rest eof => (counter + 1, .sending line (counter + 1) rest eof, none)
  | .sending line seq rest eof => (counter, .next rest eof, some (.log seq which "INFO" [trimNewline line]))
  | .done => (counter, .done, none)

/-- Where `Execute` itself stands. -/
inductive Main where
  | starting
  | waiting
  | posting (seq : ℕ)
  | completing
  | finished
  deriving DecidableEq, Repr

structure State where
  main : Main
  counter : ℕ
  readers : Stream → Reader

inductive Actor where
  | main
  | pipe (which : Stream)
  deriving DecidableEq, Repr

def State.drained (s : State) : Bool := decide (s.readers .stdout = .done) && decide (s.readers .stderr = .done)

/-- One step of `Execute`; `wg.Wait` blocks until both readers are done. -/
def executeStep (e : Ending) (s : State) : State × Option Frame :=
  match s.main with
  | .starting => ({ s with main := .waiting }, some (.progress 1 0 "running" "process started"))
  | .waiting =>
    if s.drained then ({ s with main := .posting (s.counter + 1), counter := s.counter + 1 }, none) else (s, none)
  | .posting seq => ({ s with main := .completing }, some (.progress seq 100 "post" ""))
  | .completing => ({ s with main := .finished }, some (.complete e.report.1 e.report.2))
  | .finished => (s, none)

/-- The goroutines run once the first frame is sent; a blocked actor does nothing. -/
def execute (e : Ending) : Machine State Actor (Option Frame) where
  step s a := match a with
    | .main => executeStep e s
    | .pipe which =>
      if s.main = .starting then (s, none)
      else
        let r := streamPipe which s.counter (s.readers which)
        ({ s with counter := r.1, readers := Function.update s.readers which r.2.1 }, r.2.2)

section
-- the equations are made here once, not in every proof at the same time
attribute [local simp] streamPipe executeStep
end

def started (input : Stream → Bytes) : State := ⟨.starting, 1, fun which => .reading (input which)⟩

/-- The frames handed to the sink, in their order. -/
def frames (e : Ending) (input : Stream → Bytes) (schedule : List Actor) : List Frame :=
  ((execute e).trace (started input) schedule).reduceOption

/-! ### One reader -/

/-- What the frames still to come from a reader will hold. -/
def Reader.due : Reader → List Bytes
  | .reading rest => outputLines rest
  | .numbering line rest eof => trimNewline line :: if eof then [] else outputLines rest
  | .sending line _ rest eof => trimNewline line :: if eof then [] else outputLines rest
  | .done => []

/-- The number it holds and has not sent yet. -/
def Reader.pending : Reader → List ℕ
  | .sending _ seq _ _ => [seq]
  | _ => []

theorem due_next (rest : Bytes) (eof : Bool) : (Reader.next rest eof).due = if eof then [] else outputLines rest := by
  cases eof <;> rfl

@[simp] theorem pending_reading (rest : Bytes) : (Reader.reading rest).pending = [] := rfl

@[simp] theorem pending_numbering (line rest : Bytes) (eof : Bool) : (Reader.numbering line rest eof).pending = [] := rfl

@[simp] theorem pending_sending (line : Bytes) (seq : ℕ) (rest : Bytes) (eof : Bool) :
    (Reader.sending line seq rest eof).pending = [seq] := rfl

@[simp] theorem pending_done : Reader.done.pending = [] := rfl

@[simp] theorem pending_next (rest : Bytes) (eof : Bool) : (Reader.next rest eof).pending = [] := by
  cases eof <;> rfl

/-- A reader, with the log frames of its stream so far. -/
structure Reading (input : Bytes) (logs : List (ℕ × List Bytes)) (counter : ℕ) (r : Reader) : Prop where
  lines : logs.map Prod.snd ++ r.due.map (fun line => [line]) = (outputLines input).map fun line => [line]
  increasing : (logs.map Prod.fst ++ r.pending).Pairwise (· < ·)
  bounded : ∀ q ∈ logs.map Prod.fst ++ r.pending, q ≤ counter

theorem Reading.mono {input : Bytes} {logs : List (ℕ × List Bytes)} {c c' : ℕ} {r : Reader}
    (h : Reading input logs c r) (hle : c ≤ c') : Reading input logs c' r :=
  ⟨h.lines, h.increasing, fun q hq => (h.bounded q hq).trans hle⟩

theorem streamPipe_counter (which : Stream) (counter : ℕ) (r : Reader) :
    counter ≤ (streamPipe which counter r).1 := by
  cases r with
  | numbering line rest eof => exact Nat.le_succ counter
  | _ => exact Nat.le_refl counter

theorem streamPipe_reading (which : Stream) {input : Bytes} {logs : List (ℕ × List Bytes)} {c : ℕ} {r : Reader}
    (h : Reading input logs c r) :
    Reading input (logs ++ (streamPipe which c r).2.2.toList.filterMap (Frame.logOf which)) (streamPipe which c r).1
      (streamPipe which c r).2.1 := by
  cases r with
  | reading rest =>
    have hspec := (readString_spec rest).1
    have hlines := h.lines
    simp only [streamPipe, Option.toList_none, List.filterMap_nil, List.append_nil]
    rw [Reader.due, hspec] at hlines
    split
    next hline =>
      refine ⟨?_, by simpa using h.increasing,
        by simpa using h.bounded⟩
      simpa [due_next, hline] using hlines
    next hline =>
      refine ⟨?_, h.increasing, h.bounded⟩
      simpa [Reader.due, hline] using hlines
  | numbering line rest eof =>
    have hinc := h.increasing
    have hle := h.bounded
    simp only [pending_numbering, List.append_nil] at hinc hle
    simp only [streamPipe, Option.toList_none, List.filterMap_nil, List.append_nil]
    refine ⟨h.lines, ?_, ?_⟩
    · -- the new number is above all that were given out
      rw [pending_sending, List.pairwise_append]
      refine ⟨hinc, List.pairwise_singleton _ _, ?_⟩
      intro q hq n hn
      rw [List.mem_singleton.mp hn]
      exact Nat.lt_succ_of_le (hle q hq)
    · intro q hq
      rcases List.mem_append.mp hq with hq | hq
      · exact (hle q hq).trans (Nat.le_succ c)
      · exact (List.mem_singleton.mp hq).le
  | sending line seq rest eof =>
    have hsent : (some (Frame.log seq which "INFO" [trimNewline line])).toList.filterMap (Frame.logOf which) =
        [(seq, [trimNewline line])] := by simp [Frame.logOf]
    simp only [streamPipe]
    rw [hsent]
    refine ⟨?_, ?_, ?_⟩
    · have hlines := h.lines
      simp only [Reader.due, List.map_cons] at hlines
      simpa [due_next] using hlines
    · simpa using h.increasing
    · simpa using h.bounded
  | done => simpa [streamPipe] using h

/-- Every number the counter gives out is held by a reader or sent. -/
theorem streamPipe_count (which : Stream) (c : ℕ) (r : Reader) (k : ℕ) :
    ((streamPipe which c r).2.2.toList.filterMap Frame.seq).count k + (streamPipe which c r).2.1.pending.count k +
        (List.range' 1 c).count k =
      r.pending.count k + (List.range' 1 (streamPipe which c r).1).count k := by
  cases r with
  | reading rest =>
    simp only [streamPipe]
    split <;> simp
  | numbering line rest eof =>
    simp only [streamPipe, Option.toList_none, List.filterMap_nil, pending_numbering, pending_sending, List.range'_concat,
      List.count_append, List.count_nil, Nat.one_mul]
    rw [Nat.add_comm 1 c]
    omega
  | sending line seq rest eof => simp [streamPipe, Frame.seq]
  | done => simp [streamPipe]

theorem streamPipe_frame (which : Stream) (c : ℕ) (r : Reader) :
    ∀ f ∈ (streamPipe which c r).2.2.toList, f.isLog = true ∧ ∀ other, other ≠ which → f.logOf other = none := by
  cases r with
  | sending line seq rest eof =>
    intro f hf
    simp only [streamPipe, Option.toList_some, List.mem_singleton] at hf
    subst hf
    exact ⟨rfl, fun other hne => if_neg (Ne.symm hne)⟩
  | _ =>
    intro f hf
    simp [streamPipe] at hf

/-! ### The execution -/

def Main.pending : Main → List ℕ
  | .starting => [1]
  | .posting seq => [seq]
  | _ => []

def firstFrame : Frame := .progress 1 0 "running" "process started"

def lastFrame (n : ℕ) : Frame := .progress n 100 "post" ""

/-- The first frame and log frames after it. -/
def Opened (fs : List Frame) : Prop := ∃ logs, (∀ f ∈ logs, Frame.isLog f = true) ∧ fs = firstFrame :: logs

def Shape (e : Ending) (fs : List Frame) (s : State) : Prop :=
  match s.main with
  | .starting => fs = []
  | .waiting => Opened fs
  | .posting seq => seq = s.counter ∧ s.drained = true ∧ Opened fs
  | .completing => s.drained = true ∧ ∃ opened, Opened opened ∧ fs = opened ++ [lastFrame s.counter]
  | .finished => s.drained = true ∧ ∃ opened, Opened opened ∧
      fs = opened ++ [lastFrame s.counter, .complete e.report.1 e.report.2]

structure Inv (e : Ending) (input : Stream → Bytes) (fs : List Frame) (s : State) : Prop where
  streams : ∀ which, Reading (input which) (fs.filterMap (Frame.logOf which)) s.counter (s.readers which)
  counted : ∀ k, (fs.filterMap Frame.seq).count k + (s.readers .stdout).pending.count k +
    (s.readers .stderr).pending.count k + s.main.pending.count k = (List.range' 1 s.counter).count k
  shape : Shape e fs s

variable {e : Ending} {input : Stream → Bytes}

theorem inv_started : Inv e input [] (started input) where
  streams which := ⟨by simp [started, Reader.due], by simp [started], by simp [started]⟩
  counted k := by simp [started, Main.pending]
  shape := rfl

theorem Opened.snoc {fs : List Frame} (h : Opened fs) {f : Frame} (hf : f.isLog = true) : Opened (fs ++ [f]) := by
  obtain ⟨logs, hlogs, rfl⟩ := h
  refine ⟨logs ++ [f], ?_, rfl⟩
  intro g hg
  rcases List.mem_append.mp hg with hg | hg
  · exact hlogs g hg
  · rw [List.mem_singleton.mp hg]
    exact hf

/-- `Execute` sends no log frame. -/
theorem Inv.streams_main {fs : List Frame} {s : State} (h : Inv e input fs s) {f : Frame}
    (hf : ∀ which, f.logOf which = none) {c : ℕ} (hc : s.counter ≤ c) (which : Stream) :
    Reading (input which) ((fs ++ [f]).filterMap (Frame.logOf which)) c (s.readers which) := by
  rw [List.filterMap_append, List.filterMap_cons_none (hf which), List.filterMap_nil, List.append_nil]
  exact (h.streams which).mono hc

theorem Inv.executeStep {fs : List Frame} {s : State} (h : Inv e input fs s) :
    Inv e input (fs ++ (Runner.executeStep e s).2.toList) (Runner.executeStep e s).1 := by
  have hshape := h.shape
  have hcount := h.counted
  rw [Shape] at hshape
  cases hm : s.main with
  | starting =>
    simp only [hm] at hshape
    subst hshape
    simp only [Runner.executeStep, hm]
    refine ⟨h.streams_main (fun _ => rfl) (Nat.le_refl _), ?_, ⟨[], by simp, rfl⟩⟩
    intro k
    have hk := hcount k
    simp only [hm, Main.pending, List.filterMap_nil, List.count_nil] at hk
    have hfirst : List.filterMap Frame.seq [Frame.progress 1 0 "running" "process started"] = [1] := rfl
    simp only [List.nil_append, Option.toList_some, hfirst, Main.pending, List.count_nil]
    omega
  | waiting =>
    simp only [hm] at hshape
    simp only [Runner.executeStep, hm]
    split
    next hdone =>
      simp only [Option.toList_none, List.append_nil]
      refine ⟨fun which => (h.streams which).mono (Nat.le_succ _), ?_, ⟨rfl, hdone, hshape⟩⟩
      intro k
      have hk := hcount k
      simp only [hm, Main.pending, List.count_nil] at hk
      simp only [Main.pending, List.range'_concat, List.count_append, Nat.one_mul]
      rw [Nat.add_comm 1 s.counter]
      omega
    next hnot =>
      simp only [Option.toList_none, List.append_nil]
      exact h
  | posting seq =>
    simp only [hm] at hshape
    obtain ⟨rfl, hdone, hopen⟩ := hshape
    simp only [Runner.executeStep, hm]
    refine ⟨h.streams_main (fun _ => rfl) (Nat.le_refl _), ?_, ⟨hdone, fs, hopen, rfl⟩⟩
    intro k
    have hk := hcount k
    simp only [hm, Main.pending] at hk
    simp only [Option.toList_some, List.filterMap_append, List.count_append, Main.pending, List.count_nil]
    have hlast : List.filterMap Frame.seq [Frame.progress s.counter 100 "post" ""] = [s.counter] := rfl
    rw [hlast]
    omega
  | completing =>
    simp only [hm] at hshape
    obtain ⟨hdone, opened, hopen, rfl⟩ := hshape
    simp only [Runner.executeStep, hm]
    refine ⟨h.streams_main (fun _ => rfl) (Nat.le_refl _), ?_, ⟨hdone, opened, hopen, by simp⟩⟩
    intro k
    have hk := hcount k
    simp only [hm, Main.pending] at hk
    have hnone : List.filterMap Frame.seq [Frame.complete e.report.1 e.report.2] = [] := rfl
    rw [Option.toList_some, List.filterMap_append, hnone, List.append_nil]
    exact hk
  | finished =>
    simp only [Runner.executeStep, hm, Option.toList_none, List.append_nil]
    exact h

theorem drained_iff (s : State) : s.drained = true ↔ ∀ which, s.readers which = .done := by
  rw [State.drained, Bool.and_eq_true, decide_eq_true_eq, decide_eq_true_eq]
  constructor
  · rintro ⟨hout, herr⟩ which
    cases which with
    | stdout => exact hout
    | stderr => exact herr
  · intro h
    exact ⟨h _, h _⟩

/-- Once both readers are done, their steps change nothing. -/
theorem pipe_drained {s : State} (hdone : s.drained = true) (which : Stream) :
    (execute e).step s (.pipe which) = (s, none) := by
  simp only [execute, (drained_iff s).mp hdone which, streamPipe]
  rw [← (drained_iff s).mp hdone which, Function.update_eq_self]
  split <;> rfl

theorem Inv.pipe {fs : List Frame} {s : State} (h : Inv e input fs s) (which : Stream) :
    Inv e input (fs ++ ((execute e).step s (.pipe which)).2.toList) ((execute e).step s (.pipe which)).1 := by
  by_cases hdone : s.drained = true
  · rw [pipe_drained hdone]
    simpa using h
  simp only [execute]
  split
  next hm => simpa using h
  next hm =>
    have hframe := streamPipe_frame which s.counter (s.readers which)
    have hcounter := streamPipe_counter which s.counter (s.readers which)
    refine ⟨?_, ?_, ?_⟩
    · intro other
      dsimp only
      rw [List.filterMap_append]
      by_cases hother : other = which
      · subst hother
        rw [Function.update_self]
        exact streamPipe_reading other (h.streams other)
      · rw [Function.update_of_ne hother, List.filterMap_eq_nil_iff.mpr fun f hf => (hframe f hf).2 other hother,
          List.append_nil]
        exact (h.streams other).mono hcounter
    · intro k
      have hk := h.counted k
      have hpipe := streamPipe_count which s.counter (s.readers which) k
      dsimp only
      rw [List.filterMap_append, List.count_append]
      cases which with
      | stdout =>
        rw [Function.update_self, Function.update_of_ne (show Stream.stderr ≠ .stdout by decide)]
        omega
      | stderr =>
        rw [Function.update_self, Function.update_of_ne (show Stream.stdout ≠ .stderr by decide)]
        omega
    · have hshape := h.shape
      rw [Shape] at hshape ⊢
      cases hmain : s.main with
      | starting => exact absurd hmain hm
      | waiting =>
        simp only [hmain] at hshape ⊢
        cases hf : (streamPipe which s.counter (s.readers which)).2.2 with
        | none => simpa using hshape
        | some f =>
          rw [hf] at hframe
          exact hshape.snoc (hframe f (by simp)).1
      | posting seq =>
        simp only [hmain] at hshape
        exact absurd hshape.2.1 hdone
      | completing =>
        simp only [hmain] at hshape
        exact absurd hshape.1 hdone
      | finished =>
        simp only [hmain] at hshape
        exact absurd hshape.1 hdone

theorem Inv.step {fs : List Frame} {s : State} (h : Inv e input fs s) (a : Actor) :
    Inv e input (fs ++ ((execute e).step s a).2.toList) ((execute e).step s a).1 := by
  cases a with
  | main => exact h.executeStep
  | pipe which => exact h.pipe which

theorem run_inv (schedule : List Actor) :
    Inv e input (frames e input schedule) ((execute e).run (started input) schedule) := by
  refine (execute e).history_invariant (P := fun h s => Inv e input h.reduceOption s) inv_started ?_ schedule
  intro h s a hinv
  rw [List.reduceOption_append, List.reduceOption_singleton]
  exact hinv.step a

/-! ### The execution ends -/

def Reader.work : Reader → ℕ
  | .reading rest => 3 * rest.length + 1
  | .numbering _ rest eof => (if eof then 0 else 3 * rest.length + 1) + 2
  | .sending _ _ rest eof => (if eof then 0 else 3 * rest.length + 1) + 1
  | .done => 0

def Main.work : Main → ℕ
  | .starting => 4
  | .waiting => 3
  | .posting _ => 2
  | .completing => 1
  | .finished => 0

def State.work (s : State) : ℕ := s.main.work + (s.readers .stdout).work + (s.readers .stderr).work

theorem work_next (rest : Bytes) (eof : Bool) :
    (Reader.next rest eof).work = if eof then 0 else 3 * rest.length + 1 := by
  cases eof <;> rfl

theorem streamPipe_work (which : Stream) (c : ℕ) {r : Reader} (hr : r ≠ .done) :
    (streamPipe which c r).2.1.work < r.work := by
  cases r with
  | reading rest =>
    have hspec := (readString_spec rest).2
    simp only [streamPipe]
    cases heof : (readString rest).2.2 with
    | false =>
      obtain ⟨hne, hlen⟩ := hspec heof
      simp only [if_neg hne, Reader.work, Bool.false_eq_true, if_false]
      omega
    | true =>
      by_cases hline : (readString rest).1 = []
      · rw [if_pos hline, work_next, if_pos rfl]
        exact Nat.succ_pos _
      · have hrest : rest ≠ [] := by
          rintro rfl
          exact hline rfl
        have := List.length_pos_of_ne_nil hrest
        simp only [if_neg hline, Reader.work, if_true]
        omega
  | numbering line rest eof =>
    simp only [streamPipe, Reader.work]
    omega
  | sending line seq rest eof =>
    rw [streamPipe, work_next]
    exact Nat.lt_succ_self _
  | done => exact absurd rfl hr

/-- Some goroutine can move until `Execute` returns. -/
theorem step_works (e : Ending) (s : State) :
    s.main = .finished ∨ ∃ a, ((execute e).step s a).1.work < s.work := by
  cases hm : s.main with
  | finished => exact Or.inl rfl
  | starting =>
    refine Or.inr ⟨.main, ?_⟩
    simp only [execute, Runner.executeStep, hm, State.work, Main.work]
    omega
  | posting seq =>
    refine Or.inr ⟨.main, ?_⟩
    simp only [execute, Runner.executeStep, hm, State.work, Main.work]
    omega
  | completing =>
    refine Or.inr ⟨.main, ?_⟩
    simp only [execute, Runner.executeStep, hm, State.work, Main.work]
    omega
  | waiting =>
    have hrun : ¬ s.main = .starting := by rw [hm]; decide
    refine Or.inr ?_
    by_cases hout : s.readers .stdout = .done
    · by_cases herr : s.readers .stderr = .done
      · refine ⟨.main, ?_⟩
        have hdone : s.drained = true := by rw [State.drained, hout, herr]; rfl
        simp only [execute, Runner.executeStep, hm, hdone, if_true, State.work, Main.work]
        omega
      · refine ⟨.pipe .stderr, ?_⟩
        have hlt := streamPipe_work .stderr s.counter herr
        simp only [execute, if_neg hrun, State.work, Function.update_self,
          Function.update_of_ne (show Stream.stdout ≠ .stderr by decide)]
        omega
    · refine ⟨.pipe .stdout, ?_⟩
      have hlt := streamPipe_work .stdout s.counter hout
      simp only [execute, if_neg hrun, State.work, Function.update_self,
        Function.update_of_ne (show Stream.stderr ≠ .stdout by decide)]
      omega

/-! ### What the sink receives -/

/-- The frames of a finished execution, numbered up to `n`. -/
structure Delivered (e : Ending) (input : Stream → Bytes) (fs : List Frame) (n : ℕ) : Prop where
  /-- The numbers of the progress and log frames are 1 to `n`, each once. -/
  numbered : (fs.filterMap Frame.seq).Perm (List.range' 1 n)
  ordered : ∀ which, ((fs.filterMap (Frame.logOf which)).map Prod.fst).Pairwise (· < ·)
  lines : ∀ which, (fs.filterMap (Frame.logOf which)).map Prod.snd = (outputLines (input which)).map fun line => [line]
  closed : ∃ logs, (∀ f ∈ logs, Frame.isLog f = true) ∧
    fs = firstFrame :: logs ++ [lastFrame n, .complete e.report.1 e.report.2]

theorem Inv.delivered {fs : List Frame} {s : State} (h : Inv e input fs s) (hm : s.main = .finished) :
    Delivered e input fs s.counter := by
  have hshape := h.shape
  simp only [Shape, hm] at hshape
  obtain ⟨hdone, opened, ⟨logs, hlogs, rfl⟩, rfl⟩ := hshape
  rw [drained_iff] at hdone
  refine ⟨?_, ?_, ?_, ⟨logs, hlogs, rfl⟩⟩
  · rw [List.perm_iff_count]
    intro k
    have hk := h.counted k
    simp only [hdone, hm, pending_done, Main.pending, List.count_nil] at hk
    omega
  · intro which
    have hinc := (h.streams which).increasing
    rwa [hdone, pending_done, List.append_nil] at hinc
  · intro which
    have hlines := (h.streams which).lines
    rwa [hdone, Reader.due, List.map_nil, List.append_nil] at hlines

/-- Whatever the interleaving: `Execute` can return from every point of it, and when it
has, the frames are numbered without gaps and hold both streams line by line. -/
theorem execute_delivers (e : Ending) (input : Stream → Bytes) (schedule : List Actor) :
    (∃ more, ((execute e).run (started input) (schedule ++ more)).main = .finished) ∧
      (((execute e).run (started input) schedule).main = .finished →
        ∃ n, Delivered e input (frames e input schedule) n) := by
  constructor
  · obtain ⟨more, hmore⟩ := (execute e).exists_run_of_measure State.work (P := fun s => s.main = .finished)
      (step_works e) ((execute e).run (started input) schedule)
    refine ⟨more, ?_⟩
    rw [Machine.run_append]
    exact hmore
  · intro hm
    exact ⟨_, (run_inv schedule).delivered hm⟩

/-- An unterminated last line is sent, and nothing after a terminated one. -/
example : outputLines [0x61, 0x0D, 0x0A, 0x0A, 0x62] = [[0x61], [], [0x62]] ∧ outputLines [0x0A] = [[]] := by
  decide

end AgentWorkflow.VmAgent.Runner
