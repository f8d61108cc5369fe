import AgentWorkflow.Desktop.ConnectionHealth

/-!
# One loop, and none after the stop
-/

namespace AgentWorkflow.Desktop.Connection
open AgentWorkflow.Lib AgentWorkflow.Lib.Js AgentWorkflow.Lib.PyStr
open Sse (Bytes Text TextDecoder newline units)

section
variable (P : Platform)

/-- What a loop waits for has settled so that the loop, once its signal is aborted, goes on
to the next `await` or ends without a report. -/
def passes : Phase → Settled → Bool
  | .authHeaders _, _ => false
  | .readyFetch _, .response res | .tasksFetch _, .response res => res.ok && !res.tooLarge
  | .streamFetch, .response res => res.refusal.isNone
  | .streamRead decoder buffer, .chunk (some value) =>
    let text := buffer ++ (decoder.decode value).1
    decide (units text ≤ MAX_SSE_BUFFER_CHARS) && (frames text).1.all fun frame => (snapshotOf P frame).isNone
  | _, .aborted => true
  | _, _ => false

/-- The call sets the timer of a loop. -/
def launches (env : Env) (s : Health) : Bool := !(s.handled && P.rejectsSecond) && shouldAutoConnect P env

/-- A start sets no timer or finds nothing left of the loops before; a stop finds no loop
that waits for its headers, and none whose promise has settled to what it will report. -/
def Clean (s : Health) : Event → Prop
  | .start env _ => s.running = true ∨ launches P env s = false ∨ s.loops = [] ∧ s.startTimers = 0
  | .stop => s.running = true → ∀ l ∈ s.loops, l.phase.isAuthHeaders = false ∧ l.settled.all (passes P l.phase) = true
  | _ => True

def timers (s : Health) : ℕ := s.startTimers + s.reconnectTimer.toList.length

/-- The signal of a loop is that of the current controller, or aborted. -/
def Reached (s : Health) (l : Loop) : Prop := ∃ c, l.signal = some c ∧ (s.abort = some c ∨ c ∈ s.aborted)

/-- An aborted signal has settled what the loop waits for. -/
def Woken (s : Health) (l : Loop) : Prop := ∀ c, l.signal = some c → c ∈ s.aborted → l.settled.isSome = true

/-- The controllers so far. -/
def Numbered (s : Health) : Prop := ∀ c, c ∈ s.aborted ∨ s.abort = some c → c < s.made

structure Unwinding (s : Health) (l : Loop) : Prop where
  signal : ∃ c, l.signal = some c ∧ c ∈ s.aborted
  settled : ∃ r, l.settled = some r ∧ passes P l.phase r = true

/-- The invariant of clean runs. -/
structure Single (s : Health) : Prop where
  single : s.loops.length + timers s ≤ 1
  reached : ∀ l ∈ s.loops, l.phase.isAuthHeaders = false → Reached s l
  headers : ∀ l ∈ s.loops, l.phase.isAuthHeaders = true → l.signal = none
  woken : ∀ l ∈ s.loops, Woken s l
  numbered : Numbered s
  unscheduled : s.running = false → s.reconnectTimer = none
  unwinding : s.running = false → ∀ l ∈ s.loops, Unwinding P s l

/-! ### What a loop does when it goes on -/

/-- A turn of a loop leaves the rest of the module alone; at most one of the loop and its
next timer is left. -/
structure Tame (s : Health) (t : Turn) : Prop where
  loops : t.health.loops = s.loops
  startTimers : t.health.startTimers = s.startTimers
  running : t.health.running = s.running
  aborted : t.health.aborted = s.aborted
  counted : t.loop.toList.length + t.health.reconnectTimer.toList.length ≤ 1
  unscheduled : s.running = false → t.health.reconnectTimer = none
  reached : ∀ l, t.loop = some l → l.phase.isAuthHeaders = false → Reached t.health l
  headers : ∀ l, t.loop = some l → l.phase.isAuthHeaders = true → l.signal = none
  numbered : Numbered s → Numbered t.health
  woken : Numbered s → ∀ l, t.loop = some l → Woken t.health l

variable {P}

theorem merge_fields (now : ℕ) (patch : Patch) (s : Health) :
    (s.mergeAndMaybeBroadcast now patch).1 = { s with lastSnapshot := patch.apply now s.lastSnapshot } := rfl

theorem numbered_finally {s : Health} (h : Numbered s) {t : Health} (haborted : t.aborted = s.aborted) (hmade : t.made = s.made)
    (habort : t.abort = none) : Numbered t := by
  rintro c (hc | hc)
  · rw [hmade]
    exact h c (.inl (haborted ▸ hc))
  · rw [habort] at hc
    cases hc

theorem conclude_tame {s : Health} (hidle : s.running = false → s.reconnectTimer = none) (now : ℕ) (patch : Patch) (cap : Option ℕ) :
    Tame s (s.conclude now patch cap) := by
  unfold Health.conclude Health.scheduleReconnect
  dsimp only
  rw [merge_fields]
  split
  · next h =>
    exact ⟨rfl, rfl, rfl, rfl, by simp, hidle, fun l hl => (nomatch hl), fun l hl => (nomatch hl),
      fun hs => numbered_finally hs rfl rfl rfl, fun _ l hl => (nomatch hl)⟩
  · next h =>
    refine ⟨rfl, rfl, rfl, rfl, by simp, ?_, fun l hl => (nomatch hl), fun l hl => (nomatch hl),
      fun hs => numbered_finally hs rfl rfl rfl, fun _ l hl => (nomatch hl)⟩
    intro hstopped
    exact absurd (Or.inl hstopped) h

theorem caught_tame {s : Health} (hidle : s.running = false → s.reconnectTimer = none) (now : ℕ) (isAbortError : Bool) (message : Str) :
    Tame s (s.caught now isAbortError message) := by
  unfold Health.caught
  split
  · exact ⟨rfl, rfl, rfl, rfl, by simp, hidle, fun l hl => (nomatch hl), fun l hl => (nomatch hl),
      fun hs => numbered_finally hs rfl rfl rfl, fun _ l hl => (nomatch hl)⟩
  · exact conclude_tame hidle now _ none

theorem Tame.of_fields {s : Health} {t : Turn} (backoffMs : ℕ) (lastSnapshot : Snapshot)
    (h : Tame { s with backoffMs := backoffMs, lastSnapshot := lastSnapshot } t) : Tame s t := { h with }

/-- A turn that ends in an `await`. -/
theorem await_tame {s : Health} {t : Turn} {l : Loop} (hloop : t.loop = some l) (hloops : t.health.loops = s.loops)
    (hstart : t.health.startTimers = s.startTimers) (hrunning : t.health.running = s.running)
    (haborted : t.health.aborted = s.aborted) (htimer : t.health.reconnectTimer = none)
    (hl : l.phase.isAuthHeaders = false) (hreached : Reached t.health l) (hnumbered : Numbered s → Numbered t.health)
    (hwoken : Numbered s → Woken t.health l) : Tame s t := by
  refine ⟨hloops, hstart, hrunning, haborted, ?_, fun _ => htimer, ?_, ?_, hnumbered, ?_⟩
  · rw [hloop, htimer]
    exact le_rfl
  · intro k hk
    cases hloop.symm.trans hk
    exact fun _ => hreached
  · intro k hk hauth
    cases hloop.symm.trans hk
    rw [hl] at hauth
    cases hauth
  · intro hs k hk
    cases hloop.symm.trans hk
    exact hwoken hs

theorem next_woken (s : Health) (phase : Phase) (l : Loop) : Woken s (l.next s.aborted phase) := by
  intro c hsignal hc
  have hsome : l.signal = some c := hsignal
  unfold Loop.next
  simp [hsome, hc]

/-- The usual case: the same controllers, and the next `await`. -/
theorem next_tame {s : Health} {t : Turn} {l : Loop} {phase : Phase} (hloop : t.loop = some (l.next s.aborted phase))
    (hloops : t.health.loops = s.loops) (hstart : t.health.startTimers = s.startTimers) (hrunning : t.health.running = s.running)
    (haborted : t.health.aborted = s.aborted) (habort : t.health.abort = s.abort) (hmade : t.health.made = s.made)
    (htimer : t.health.reconnectTimer = none) (hphase : phase.isAuthHeaders = false) (hreached : Reached s l) : Tame s t := by
  refine await_tame hloop hloops hstart hrunning haborted htimer hphase ?_ ?_ ?_
  · obtain ⟨c, hsignal, hc⟩ := hreached
    exact ⟨c, hsignal, by rwa [habort, haborted]⟩
  · intro hs c hc
    rw [haborted, habort] at hc
    rw [hmade]
    exact hs c hc
  · intro _ c hsignal hc
    rw [haborted] at hc
    exact next_woken s phase l c hsignal hc

section Turns
variable {s : Health} {l : Loop} (htimer : s.reconnectTimer = none)
include htimer

theorem onReadyResponse_tame (hreached : Reached s l) (now : ℕ) (url : Str) (res : Response) :
    Tame s (s.onReadyResponse now l url res) := by
  unfold Health.onReadyResponse
  split
  · exact conclude_tame (fun _ => htimer) now _ none
  · split
    · exact caught_tame (fun _ => htimer) now false _
    · exact next_tame rfl rfl rfl rfl rfl rfl rfl htimer rfl hreached

theorem online_tame (now : ℕ) (url : Str) (activeTasks : ℕ) (summaryError : Option Str) :
    Tame s (s.online P now url activeTasks summaryError) := by
  exact .of_fields CONTROL_PLANE_POLL_MS s.lastSnapshot
    (conclude_tame (s := { s with backoffMs := CONTROL_PLANE_POLL_MS }) (fun _ => htimer) now _ (some CONTROL_PLANE_POLL_MS))

theorem onReadyText_tame (env : Env) (now : ℕ) (url : Str) (text : Text) :
    Tame s (s.onReadyText P env now l url text) := by
  unfold Health.onReadyText
  split
  · exact caught_tame (fun _ => htimer) now false _
  · exact caught_tame (fun _ => htimer) now false _
  · split
    · exact conclude_tame (fun _ => htimer) now _ none
    · split
      · exact online_tame htimer now url 0 none
      · split
        · exact caught_tame (fun _ => htimer) now false _
        · next c hc => exact next_tame (l := { l with signal := some c }) rfl rfl rfl rfl rfl rfl rfl htimer rfl ⟨c, rfl, .inl hc⟩

theorem onTasksResponse_tame (hreached : Reached s l) (now : ℕ) (url : Str) (res : Response) :
    Tame s (s.onTasksResponse P now l url res) := by
  unfold Health.onTasksResponse
  split
  · exact online_tame htimer now url 0 _
  · split
    · exact caught_tame (fun _ => htimer) now false _
    · exact next_tame rfl rfl rfl rfl rfl rfl rfl htimer rfl hreached

theorem onTasksText_tame (now : ℕ) (url : Str) (text : Text) : Tame s (s.onTasksText P now l url text) := by
  unfold Health.onTasksText
  split
  · exact caught_tame (fun _ => htimer) now false _
  · exact online_tame htimer now url _ none

theorem onAuthHeaders_tame (url : Str) (authHeaders : List (Str × Str)) : Tame s (s.onAuthHeaders l url authHeaders) := by
  refine await_tame rfl rfl rfl rfl rfl htimer rfl ⟨s.made, rfl, .inl rfl⟩ ?_ ?_
  · rintro hs c (hc | hc)
    · exact (hs c (.inl hc)).trans (Nat.lt_succ_self _)
    · cases hc
      exact Nat.lt_succ_self _
  · rintro hs c ⟨⟩ hc
    exact absurd (hs s.made (.inl hc)) (lt_irrefl _)

theorem onStreamResponse_tame (hreached : Reached s l) (now : ℕ) (res : Response) : Tame s (s.onStreamResponse now l res) := by
  unfold Health.onStreamResponse
  split
  · exact conclude_tame (fun _ => htimer) now _ _
  · exact next_tame rfl rfl rfl rfl rfl rfl rfl htimer rfl hreached

end Turns

/-- The frames of a chunk only change the snapshot. -/
theorem readFrames_fields (now : ℕ) (fs : List Text) (s : Health) :
    (s.readFrames P now fs).1 = { s with lastSnapshot := (s.readFrames P now fs).1.lastSnapshot } := by
  induction fs generalizing s with
  | nil => rfl
  | cons frame fs ih =>
    unfold Health.readFrames
    split
    · exact ih s
    · rfl
    · dsimp only
      rw [ih, merge_fields]

theorem onChunk_tame {s : Health} {l : Loop} (htimer : s.reconnectTimer = none) (hreached : Reached s l) (now : ℕ)
    (decoder : TextDecoder) (buffer : Text) (value : Option Bytes) : Tame s (s.onChunk P now l decoder buffer value) := by
  unfold Health.onChunk
  cases value with
  | none => exact conclude_tame (fun _ => htimer) now _ none
  | some value =>
    dsimp only
    have hread := readFrames_fields (P := P) now (frames (buffer ++ (decoder.decode value).1)).1 s
    split
    · exact caught_tame (fun _ => htimer) now false _
    · split
      · next message _ =>
        rw [hread]
        have hcaught := caught_tame
          (s := { s with lastSnapshot := (s.readFrames P now (frames (buffer ++ (decoder.decode value).1)).1).1.lastSnapshot })
          (fun _ => htimer) now false ((Health.streamMessage l (some message)).take 120)
        have h := Tame.of_fields (s := s) s.backoffMs _ hcaught
        exact { h with }
      · rw [hread]
        exact next_tame rfl rfl rfl rfl rfl rfl rfl htimer rfl hreached

theorem proceed_tame {s : Health} {l : Loop} (htimer : s.reconnectTimer = none)
    (hreached : l.phase.isAuthHeaders = false → Reached s l) (hheaders : l.phase.isAuthHeaders = true → l.signal = none)
    (hwoken : Woken s l) (env : Env) (now : ℕ) (r : Settled) : Tame s (s.proceed P env now l r) := by
  unfold Health.proceed
  split
  · exact onAuthHeaders_tame htimer _ _
  · next hphase => exact onReadyResponse_tame htimer (hreached (by rw [hphase]; rfl)) now _ _
  · exact onReadyText_tame htimer env now _ _
  · next hphase => exact onTasksResponse_tame htimer (hreached (by rw [hphase]; rfl)) now _ _
  · exact onTasksText_tame htimer now _ _
  · next hphase => exact onStreamResponse_tame htimer (hreached (by rw [hphase]; rfl)) now _
  · next hphase => exact onChunk_tame htimer (hreached (by rw [hphase]; rfl)) now _ _ _
  · exact caught_tame (fun _ => htimer) now false _
  · exact caught_tame (fun _ => htimer) now true _
  · refine ⟨rfl, rfl, rfl, rfl, ?_, fun _ => htimer, ?_, ?_, id, ?_⟩
    · rw [htimer]
      exact le_rfl
    · rintro k ⟨⟩
      exact hreached
    · rintro k ⟨⟩
      exact hheaders
    · rintro - k ⟨⟩
      exact hwoken

/-- After the stop a loop that unwinds does so in silence. -/
structure Silent (s : Health) (t : Turn) : Prop where
  acts : t.acts = []
  lastSnapshot : t.health.lastSnapshot = s.lastSnapshot
  unwinding : ∀ l, t.loop = some l → Unwinding P t.health l

theorem next_unwinding {s : Health} {l : Loop} {c : ℕ} (hsignal : l.signal = some c) (hc : c ∈ s.aborted) {phase : Phase}
    (hphase : phase.isAuthHeaders = false) : Unwinding P s (l.next s.aborted phase) := by
  refine ⟨⟨c, hsignal, hc⟩, .aborted, ?_, ?_⟩
  · unfold Loop.next
    simp [hsignal, hc]
  · unfold Loop.next
    cases phase with
    | authHeaders url => cases hphase
    | _ => rfl

theorem readFrames_none {now : ℕ} {fs : List Text} (h : ∀ frame ∈ fs, snapshotOf P frame = none) (s : Health) :
    s.readFrames P now fs = (s, [], none) := by
  induction fs with
  | nil => rfl
  | cons frame fs ih =>
    unfold Health.readFrames
    rw [h frame (List.mem_cons_self ..)]
    exact ih fun f hf => h f (List.mem_cons_of_mem _ hf)

theorem proceed_silent {s : Health} {l : Loop} {r : Settled} (hstopped : s.running = false) (hsignal : ∃ c, l.signal = some c ∧ c ∈ s.aborted)
    (hsettled : l.settled = some r) (hpasses : passes P l.phase r = true) (env : Env) (now : ℕ) : Silent (P := P) s (s.proceed P env now l r) := by
  obtain ⟨c, hsignal, hc⟩ := hsignal
  have hawait : ∀ {t : Turn} {phase : Phase} {k : Loop}, t.acts = [] → t.health.lastSnapshot = s.lastSnapshot →
      t.health.aborted = s.aborted → t.loop = some (k.next s.aborted phase) → k.signal = l.signal →
      phase.isAuthHeaders = false → Silent (P := P) s t := by
    intro t phase k hacts hlast haborted hloop hk hphase
    refine ⟨hacts, hlast, ?_⟩
    intro k' hk'
    rw [hloop] at hk'
    cases hk'
    have h := next_unwinding (P := P) (hk.trans hsignal) (haborted ▸ hc) hphase (s := t.health)
    rwa [haborted] at h
  unfold Health.proceed
  split
  · next hphase => simp [hphase, passes] at hpasses
  · next url res hphase =>
    simp only [hphase, passes, Bool.and_eq_true, Bool.not_eq_true'] at hpasses
    obtain ⟨hok, hsize⟩ := hpasses
    unfold Health.onReadyResponse
    rw [if_neg (by simp [hok]), if_neg (by simp [hsize])]
    exact hawait rfl rfl rfl rfl rfl rfl
  · next hphase => simp [hphase, passes] at hpasses
  · next url res hphase =>
    simp only [hphase, passes, Bool.and_eq_true, Bool.not_eq_true'] at hpasses
    obtain ⟨hok, hsize⟩ := hpasses
    unfold Health.onTasksResponse
    rw [if_neg (by simp [hok]), if_neg (by simp [hsize])]
    exact hawait rfl rfl rfl rfl rfl rfl
  · next hphase => simp [hphase, passes] at hpasses
  · next res hphase =>
    simp only [hphase, passes, Option.isNone_iff_eq_none] at hpasses
    unfold Health.onStreamResponse
    rw [hpasses]
    exact hawait rfl rfl rfl rfl rfl rfl
  · next decoder buffer value hphase =>
    unfold Health.onChunk
    cases value with
    | none => simp [hphase, passes] at hpasses
    | some value =>
      simp only [hphase, passes, Bool.and_eq_true, decide_eq_true_eq, List.all_eq_true, Option.isNone_iff_eq_none] at hpasses
      obtain ⟨hlength, hframes⟩ := hpasses
      dsimp only
      rw [if_neg (Nat.not_lt.mpr hlength), readFrames_none hframes]
      exact hawait rfl rfl rfl rfl rfl rfl
  · next hphase =>
    cases hl : l.phase <;> simp [hl, passes] at hpasses
  · unfold Health.caught
    rw [if_pos ⟨rfl, hstopped⟩]
    exact ⟨rfl, rfl, fun k hk => (nomatch hk)⟩
  · refine ⟨rfl, rfl, ?_⟩
    rintro k ⟨⟩
    exact ⟨⟨c, hsignal, hc⟩, _, hsettled, hpasses⟩

/-! ### Steps -/

theorem single_initial : Single P initial :=
  ⟨Nat.zero_le _, fun _ hl => (nomatch hl), fun _ hl => (nomatch hl), fun _ hl => (nomatch hl),
    fun _ hc => hc.elim (fun h => (nomatch h)) (fun h => (nomatch h)), fun _ => rfl, fun _ _ hl => (nomatch hl)⟩

/-- Loops with other timers, or whose promises have settled. -/
structure Moved (s s' : Health) (f : Loop → Loop) : Prop where
  loops : s'.loops = s.loops.map f
  timers : timers s' = timers s
  reconnectTimer : s'.reconnectTimer = s.reconnectTimer
  running : s'.running = s.running
  abort : s'.abort = s.abort
  made : s'.made = s.made
  aborted : ∀ c, c ∈ s.aborted → c ∈ s'.aborted
  phase : ∀ l, (f l).phase = l.phase
  signal : ∀ l, (f l).signal = l.signal
  settled : ∀ l r, l.settled = some r → (f l).settled = some r

theorem Moved.reached {s s' : Health} {f : Loop → Loop} (hf : Moved s s' f) {l : Loop} (h : Reached s l) : Reached s' (f l) := by
  obtain ⟨c, hsignal, hc⟩ := h
  refine ⟨c, (hf.signal l).trans hsignal, ?_⟩
  rw [hf.abort]
  exact hc.imp id (hf.aborted c)

theorem Moved.unwinding {s s' : Health} {f : Loop → Loop} (hf : Moved s s' f) {l : Loop} (h : Unwinding P s l) : Unwinding P s' (f l) := by
  obtain ⟨⟨c, hsignal, hc⟩, r, hr, hpasses⟩ := h
  refine ⟨⟨c, (hf.signal l).trans hsignal, hf.aborted c hc⟩, r, hf.settled l r hr, ?_⟩
  rw [hf.phase]
  exact hpasses

theorem Moved.single {s s' : Health} {f : Loop → Loop} (hf : Moved s s' f) (h : Single P s) (hnumbered : Numbered s')
    (hwoken : ∀ l ∈ s'.loops, Woken s' l) : Single P s' := by
  have hmem : ∀ l ∈ s'.loops, ∃ k ∈ s.loops, f k = l := fun l hl => List.mem_map.mp (hf.loops ▸ hl)
  refine ⟨?_, ?_, ?_, hwoken, hnumbered, ?_, ?_⟩
  · rw [hf.loops, hf.timers, List.length_map]
    exact h.single
  · intro l hl hauth
    obtain ⟨k, hk, rfl⟩ := hmem l hl
    exact hf.reached (h.reached k hk (hf.phase k ▸ hauth))
  · intro l hl hauth
    obtain ⟨k, hk, rfl⟩ := hmem l hl
    exact (hf.signal k).trans (h.headers k hk (hf.phase k ▸ hauth))
  · intro hstopped
    rw [hf.reconnectTimer]
    exact h.unscheduled (hf.running ▸ hstopped)
  · intro hstopped l hl
    obtain ⟨k, hk, rfl⟩ := hmem l hl
    exact hf.unwinding (h.unwinding (hf.running ▸ hstopped) k hk)

/-- Promises settle and timers run out. -/
theorem update_single {s : Health} (h : Single P s) (id : ℕ) (g : Loop → Loop) (hphase : ∀ l, (g l).phase = l.phase)
    (hsignal : ∀ l, (g l).signal = l.signal) (hsettled : ∀ l r, l.settled = some r → (g l).settled = some r) :
    Single P { s with loops := update id g s.loops } := by
  have hif : ∀ l : Loop, (if l.id = id then g l else l) = g l ∨ (if l.id = id then g l else l) = l := by
    intro l
    split
    · exact .inl rfl
    · exact .inr rfl
  have hmoved : Moved s { s with loops := update id g s.loops } fun l => if l.id = id then g l else l := by
    refine ⟨rfl, rfl, rfl, rfl, rfl, rfl, fun c hc => hc, ?_, ?_, ?_⟩
    · intro l
      rcases hif l with h | h <;> rw [h]
      exact hphase l
    · intro l
      rcases hif l with h | h <;> rw [h]
      exact hsignal l
    · intro l r hr
      rcases hif l with h | h <;> rw [h]
      · exact hsettled l r hr
      · exact hr
  refine hmoved.single h h.numbered ?_
  intro l hl c hc haborted
  obtain ⟨k, hk, rfl⟩ := List.mem_map.mp hl
  obtain ⟨r, hr⟩ := Option.isSome_iff_exists.mp (h.woken k hk c ((hmoved.signal k).symm.trans hc) haborted)
  rw [hmoved.settled k r hr]
  rfl

theorem signalled_fields (c : ℕ) (l : Loop) :
    (l.signalled c).phase = l.phase ∧ (l.signalled c).signal = l.signal ∧
      (∀ r, l.settled = some r → (l.signalled c).settled = some r) ∧ (l.signal = some c → (l.signalled c).settled.isSome = true) := by
  unfold Loop.signalled
  split
  · next h =>
    refine ⟨rfl, rfl, ?_, fun _ => rfl⟩
    intro r hr
    rw [hr] at h
    exact absurd h.2 Bool.false_ne_true
  · next h =>
    refine ⟨rfl, rfl, fun r hr => hr, ?_⟩
    intro hc
    rw [not_and] at h
    simpa [Option.isSome_iff_ne_none] using h hc

theorem abortCurrent_moved (s : Health) : ∃ f, Moved s s.abortCurrent f ∧ ∀ c, s.abort = some c → ∀ l, f l = l.signalled c := by
  unfold Health.abortCurrent
  cases habort : s.abort with
  | none => exact ⟨id, ⟨by simp, rfl, rfl, rfl, rfl, rfl, fun _ => id, fun _ => rfl, fun _ => rfl, fun _ _ => id⟩,
      fun c hc => (nomatch hc)⟩
  | some c =>
    refine ⟨Loop.signalled c, ⟨rfl, rfl, rfl, rfl, habort.symm, rfl, fun d hd => List.mem_cons_of_mem c hd, ?_, ?_, ?_⟩, ?_⟩
    · exact fun l => (signalled_fields c l).1
    · exact fun l => (signalled_fields c l).2.1
    · exact fun l => (signalled_fields c l).2.2.1
    · rintro d ⟨⟩ l
      rfl

theorem mem_aborted_abortCurrent {s : Health} {c : ℕ} (h : c ∈ s.abortCurrent.aborted) : c ∈ s.aborted ∨ s.abort = some c := by
  unfold Health.abortCurrent at h
  cases habort : s.abort with
  | none =>
    rw [habort] at h
    exact .inl h
  | some d =>
    rw [habort] at h
    rcases List.mem_cons.mp h with rfl | h
    · exact .inr rfl
    · exact .inl h

theorem abort_mem_aborted {s : Health} {c : ℕ} (h : s.abort = some c) : c ∈ s.abortCurrent.aborted := by
  unfold Health.abortCurrent
  rw [h]
  exact List.mem_cons_self ..

theorem abortCurrent_woken {s : Health} (h : ∀ l ∈ s.loops, Woken s l) : ∀ l ∈ s.abortCurrent.loops, Woken s.abortCurrent l := by
  obtain ⟨f, hf, hsignalled⟩ := abortCurrent_moved s
  intro l hl c hc haborted
  rw [hf.loops] at hl
  obtain ⟨k, hk, rfl⟩ := List.mem_map.mp hl
  have hsignal : k.signal = some c := (hf.signal k).symm.trans hc
  rcases mem_aborted_abortCurrent haborted with hold | hnew
  · obtain ⟨r, hr⟩ := Option.isSome_iff_exists.mp (h k hk c hsignal hold)
    rw [hf.settled k r hr]
    rfl
  · rw [hsignalled c hnew k]
    exact (signalled_fields c k).2.2.2 hsignal

theorem abortCurrent_numbered {s : Health} (h : Numbered s) : Numbered s.abortCurrent := by
  obtain ⟨f, hf, -⟩ := abortCurrent_moved s
  intro c hc
  rw [hf.made]
  rcases hc with hc | hc
  · exact h c (mem_aborted_abortCurrent hc)
  · exact h c (.inr (hf.abort ▸ hc))

theorem abortCurrent_single {s : Health} (h : Single P s) : Single P s.abortCurrent := by
  obtain ⟨f, hf, -⟩ := abortCurrent_moved s
  exact hf.single h (abortCurrent_numbered h.numbered) (abortCurrent_woken h.woken)

/-! ### Starts and stops -/

theorem single_empty {s : Health} (hloops : s.loops = []) (htimers : timers s ≤ 1) (hnumbered : Numbered s)
    (hidle : s.running = false → s.reconnectTimer = none) : Single P s := by
  refine ⟨?_, ?_, ?_, ?_, hnumbered, hidle, ?_⟩
  · rw [hloops]
    simpa using htimers
  all_goals simp [hloops]

theorem single_alone {s : Health} {l : Loop} (hloops : s.loops = [l]) (htimers : timers s = 0) (hnumbered : Numbered s)
    (hrunning : s.running = true) (hreached : l.phase.isAuthHeaders = false → Reached s l)
    (hheaders : l.phase.isAuthHeaders = true → l.signal = none) (hwoken : Woken s l) : Single P s := by
  have hmem : ∀ k ∈ s.loops, k = l := by simp [hloops]
  refine ⟨?_, ?_, ?_, ?_, hnumbered, ?_, ?_⟩
  · rw [hloops, htimers]
    exact le_rfl
  · intro k hk
    rw [hmem k hk]
    exact hreached
  · intro k hk
    rw [hmem k hk]
    exact hheaders
  · intro k hk
    rw [hmem k hk]
    exact hwoken
  all_goals
    intro hstopped
    rw [hrunning] at hstopped
    cases hstopped

theorem timers_eq_zero {s : Health} : timers s = 0 ↔ s.startTimers = 0 ∧ s.reconnectTimer = none := by
  unfold timers
  cases s.reconnectTimer <;> simp

/-- The loop that a timer starts. -/
theorem launch_single {s : Health} (hloops : s.loops = []) (htimers : timers s = 0) (hnumbered : Numbered s) (env : Env) (now : ℕ) :
    Single P (s.runConnectionLoop P env now).1 := by
  have hidle : s.reconnectTimer = none := (timers_eq_zero.mp htimers).2
  have hsame : Single P s := single_empty hloops (by omega) hnumbered fun _ => hidle
  have hreport : ∀ patch, Single P (s.mergeAndMaybeBroadcast now patch).1 := fun patch =>
    single_empty hloops (htimers.trans_le (Nat.zero_le 1)) hnumbered fun _ => hidle
  have hmade : Numbered { s with made := s.made + 1 } := fun c hc => (hnumbered c hc).trans (Nat.lt_succ_self _)
  unfold Health.runConnectionLoop
  split
  · exact hsame
  · unfold Health.runControlPlanePoll
    split
    · exact hsame
    · next hrunning =>
      rw [Bool.not_eq_false] at hrunning
      split
      · exact hreport _
      · refine single_alone (by rw [hloops]; rfl) htimers ?_ hrunning (fun _ => ⟨s.made, rfl, .inl rfl⟩) (by rintro ⟨⟩) ?_
        · rintro c (hc | hc)
          · exact hmade c (.inl hc)
          · cases (show some s.made = some c from hc)
            exact Nat.lt_succ_self _
        · rintro c ⟨⟩ hc
          exact absurd (hnumbered s.made (.inl hc)) (lt_irrefl _)
  · unfold Health.runSseLoop
    split
    · exact hsame
    · next hrunning =>
      rw [Bool.not_eq_false] at hrunning
      split
      · exact hreport _
      · exact single_alone (by rw [hloops]; rfl) htimers hmade hrunning (by rintro ⟨⟩) (fun _ => rfl) (by rintro c ⟨⟩)

theorem start_single {s : Health} (h : Single P s) {env : Env} {now : ℕ} (hclean : Clean P s (.start env now)) :
    Single P (s.startConnectionHealth P env now).1 := by
  -- a start that sets no timer takes what is left of the loops before
  have hset : ∀ handled snapshot, Single P { s with running := true, handled := handled, lastSnapshot := snapshot } := by
    intro handled snapshot
    exact ⟨h.single, h.reached, h.headers, h.woken, h.numbered, fun hstopped => (nomatch hstopped), fun hstopped => (nomatch hstopped)⟩
  unfold Health.startConnectionHealth
  split
  · exact h
  · next hstopped =>
    rw [Bool.not_eq_true] at hstopped
    split
    · exact hset s.handled s.lastSnapshot
    · next hhandle =>
      dsimp only
      split
      · exact hset true (defaultSnapshot now)
      · split
        · exact hset true _
        · next hconnect =>
          have hlaunches : launches P env s = true := by
            unfold launches
            rw [Bool.not_eq_false] at hconnect
            rw [hconnect]
            cases hhandled : s.handled <;> cases hrejects : P.rejectsSecond <;> simp_all
          rcases hclean with hrunning | hnone | ⟨hloops, htimers⟩
          · rw [hstopped] at hrunning
            cases hrunning
          · rw [hlaunches] at hnone
            cases hnone
          · refine single_empty hloops ?_ h.numbered fun hs => (nomatch hs)
            unfold timers
            dsimp only
            rw [htimers, h.unscheduled hstopped]
            exact le_rfl

theorem stop_single {s : Health} (h : Single P s) (hclean : Clean P s .stop) : Single P s.stopConnectionHealth := by
  unfold Health.stopConnectionHealth
  split
  · exact h
  · next hrunning =>
    rw [Bool.not_eq_false] at hrunning
    have hclean := hclean hrunning
    let s₀ : Health := { s with running := false, reconnectTimer := none }
    obtain ⟨f, hf, hsignalled⟩ := abortCurrent_moved s₀
    have hwoken : ∀ l ∈ s₀.abortCurrent.loops, Woken s₀.abortCurrent l := abortCurrent_woken (s := s₀) h.woken
    have hmem : ∀ l ∈ s₀.abortCurrent.loops, ∃ k ∈ s.loops, f k = l := fun l hl => List.mem_map.mp (hf.loops ▸ hl)
    have hunwinding : ∀ k ∈ s.loops, Unwinding P s₀.abortCurrent (f k) := by
      intro k hk
      obtain ⟨hauth, hsettled⟩ := hclean k hk
      obtain ⟨c, hsignal, hc⟩ := h.reached k hk hauth
      have haborted : c ∈ s₀.abortCurrent.aborted := hc.elim (fun hc => abort_mem_aborted (s := s₀) hc) (hf.aborted c)
      refine ⟨⟨c, (hf.signal k).trans hsignal, haborted⟩, ?_⟩
      cases hr : k.settled with
      | some r =>
        rw [hr] at hsettled
        exact ⟨r, hf.settled k r hr, by rw [hf.phase]; exact hsettled⟩
      | none =>
        -- only the stop can have settled it
        have habort : s.abort = some c := by
          refine hc.resolve_right fun hc => ?_
          have := h.woken k hk c hsignal hc
          rw [hr] at this
          cases this
        refine ⟨.aborted, ?_, ?_⟩
        · rw [hsignalled c habort k]
          unfold Loop.signalled
          rw [if_pos ⟨hsignal, by rw [hr]; rfl⟩]
        · rw [hf.phase]
          cases hphase : k.phase with
          | authHeaders url =>
            rw [hphase] at hauth
            cases hauth
          | _ => rfl
    refine ⟨?_, ?_, ?_, hwoken, ?_, fun _ => hf.reconnectTimer, ?_⟩
    · have hsingle := h.single
      have htimers : timers s₀.abortCurrent = s.startTimers := hf.timers.trans (Nat.add_zero _)
      show s₀.abortCurrent.loops.length + timers s₀.abortCurrent ≤ 1
      rw [htimers, hf.loops, List.length_map]
      show s.loops.length + s.startTimers ≤ 1
      unfold timers at hsingle
      omega
    · intro l hl _
      obtain ⟨k, hk, rfl⟩ := hmem l hl
      obtain ⟨c, hsignal, hc⟩ := (hunwinding k hk).signal
      exact ⟨c, hsignal, .inr hc⟩
    · intro l hl hauth
      obtain ⟨k, hk, rfl⟩ := hmem l hl
      rw [hf.phase, (hclean k hk).1] at hauth
      cases hauth
    · exact numbered_finally (abortCurrent_numbered (s := s₀) h.numbered) rfl rfl rfl
    · intro _ l hl
      obtain ⟨k, hk, rfl⟩ := hmem l hl
      obtain ⟨hsignal, hsettled⟩ := hunwinding k hk
      exact ⟨hsignal, hsettled⟩

/-! ### Going on -/

theorem one_loop {s : Health} (h : Single P s) {l : Loop} (hl : l ∈ s.loops) : s.loops = [l] ∧ timers s = 0 := by
  have hsingle := h.single
  cases hloops : s.loops with
  | nil =>
    rw [hloops] at hl
    cases hl
  | cons k ks =>
    rw [hloops, List.length_cons] at hsingle
    have hks : ks = [] := List.length_eq_zero_iff.mp (by omega)
    rw [hloops, hks] at hl
    rw [List.mem_singleton.mp hl, hks]
    exact ⟨rfl, by omega⟩

/-- The loop goes on alone. -/
theorem resume_step {s : Health} (h : Single P s) {l : Loop} {r : Settled} (hl : l ∈ s.loops) (hr : l.settled = some r) (env : Env)
    (now : ℕ) :
    let t := { s with loops := [] }.proceed P env now l r
    t.health.loops = [] ∧ Single P { t.health with loops := t.loop.toList } ∧ (s.running = false → t.acts = [] ∧ t.health.lastSnapshot = s.lastSnapshot) := by
  intro t
  obtain ⟨hloops, htimers⟩ := one_loop h hl
  obtain ⟨hstart, htimer⟩ := timers_eq_zero.mp htimers
  have htame : Tame { s with loops := [] } t :=
    proceed_tame (s := { s with loops := [] }) htimer (h.reached l hl) (h.headers l hl) (h.woken l hl) env now r
  have hsilent : s.running = false → Silent (P := P) { s with loops := [] } t := by
    intro hstopped
    obtain ⟨hsignal, r', hr', hpasses⟩ := h.unwinding hstopped l hl
    cases hr.symm.trans hr'
    exact proceed_silent (s := { s with loops := [] }) hstopped hsignal hr hpasses env now
  have hmem : ∀ k ∈ t.loop.toList, t.loop = some k := fun k hk => Option.mem_toList.mp hk
  refine ⟨htame.loops, ⟨?_, ?_, ?_, ?_, htame.numbered h.numbered, ?_, ?_⟩, fun hstopped => ⟨(hsilent hstopped).acts, (hsilent hstopped).lastSnapshot⟩⟩
  · have hcounted := htame.counted
    unfold timers
    dsimp only
    rw [htame.startTimers, hstart]
    omega
  · exact fun k hk => htame.reached k (hmem k hk)
  · exact fun k hk => htame.headers k (hmem k hk)
  · exact fun k hk => htame.woken h.numbered k (hmem k hk)
  · exact fun hstopped => htame.unscheduled (htame.running ▸ hstopped)
  · intro hstopped k hk
    obtain ⟨hsignal, hsettled⟩ := (hsilent (htame.running ▸ hstopped)).unwinding k (hmem k hk)
    exact ⟨hsignal, hsettled⟩

/-- What the step of a loop that goes on is. -/
theorem step_resume {s : Health} (h : Single P s) (id : ℕ) (env : Env) (now : ℕ) :
    step P s (.resume id env now) = (s, []) ∨
      ∃ l ∈ s.loops, ∃ r, l.settled = some r ∧
        let t := { s with loops := [] }.proceed P env now l r
        step P s (.resume id env now) = ({ t.health with loops := t.loop.toList }, t.acts) := by
  cases hfind : s.loops.find? fun l => decide (l.id = id) with
  | none =>
    left
    unfold step
    dsimp only
    rw [hfind]
  | some l =>
    have hl := List.mem_of_find?_eq_some hfind
    have hid : l.id = id := by simpa using List.find?_some hfind
    cases hr : l.settled with
    | none =>
      left
      unfold step
      dsimp only
      rw [hfind]
      dsimp only
      rw [hr]
    | some r =>
      right
      refine ⟨l, hl, r, hr, ?_⟩
      intro t
      have hothers : s.loops.filter (fun l => decide (l.id ≠ id)) = [] := by
        rw [(one_loop h hl).1]
        simp [hid]
      have hnone : t.health.loops = [] := (resume_step h hl hr env now).1
      unfold step
      dsimp only
      rw [hfind]
      dsimp only
      rw [hr]
      dsimp only
      rw [hothers]
      show ({ t.health with loops := t.health.loops ++ t.loop.toList }, t.acts) = _
      rw [hnone, List.nil_append]

theorem step_single {s : Health} (h : Single P s) {e : Event} (hclean : Clean P s e) : Single P (step P s e).1 := by
  cases e with
  | start env now => exact start_single h hclean
  | stop => exact stop_single h hclean
  | startTimeout env now =>
    by_cases htimer : s.startTimers = 0
    · rw [show step P s (.startTimeout env now) = (s, []) from if_pos htimer]
      exact h
    · have hsingle := h.single
      unfold timers at hsingle
      have hloops : s.loops = [] := List.length_eq_zero_iff.mp (by omega)
      have hidle : s.reconnectTimer = none := by
        cases hr : s.reconnectTimer with
        | none => rfl
        | some n =>
          rw [hr, Option.toList_some, List.length_singleton] at hsingle
          omega
      have htimers : timers { s with startTimers := s.startTimers - 1 } = 0 := timers_eq_zero.mpr ⟨by dsimp only; omega, hidle⟩
      unfold step
      dsimp only
      rw [if_neg htimer]
      split
      · exact launch_single (s := { s with startTimers := s.startTimers - 1 }) hloops htimers h.numbered env now
      · exact single_empty hloops (htimers.trans_le (Nat.zero_le 1)) h.numbered fun _ => hidle
  | reconnectTimeout env now =>
    by_cases htimer : s.reconnectTimer = none
    · rw [show step P s (.reconnectTimeout env now) = (s, []) from if_pos htimer]
      exact h
    · have hsingle := h.single
      obtain ⟨n, hn⟩ := Option.ne_none_iff_exists'.mp htimer
      unfold timers at hsingle
      rw [hn, Option.toList_some, List.length_singleton] at hsingle
      have hloops : s.loops = [] := List.length_eq_zero_iff.mp (by omega)
      have htimers : timers { s with reconnectTimer := none } = 0 := timers_eq_zero.mpr ⟨by dsimp only; omega, rfl⟩
      rw [show step P s (.reconnectTimeout env now) = _ from if_neg htimer]
      exact launch_single (s := { s with reconnectTimer := none }) hloops htimers h.numbered env now
  | requestTimeout id =>
    unfold step
    dsimp only
    split
    · exact abortCurrent_single (update_single h id _ (fun _ => rfl) (fun _ => rfl) fun _ _ hr => hr)
    · exact h
  | settle id r =>
    refine update_single h id _ ?_ ?_ ?_
    all_goals intro l
    · split <;> rfl
    · split <;> rfl
    · intro r' hr'
      rw [if_neg (by simp [hr'])]
      exact hr'
  | resume id env now =>
    rcases step_resume h id env now with hstep | ⟨l, hl, r, hr, hstep⟩ <;> rw [hstep]
    · exact h
    · exact (resume_step h hl hr env now).2.1

/-- No request, and no snapshot that is stored or sent, until the next start. -/
def Quiet (P : Platform) (s : Health) : Prop :=
  s.running = false → ∀ e : Event, e.isStart = false → (step P s e).2 = [] ∧ (step P s e).1.lastSnapshot = s.lastSnapshot

theorem abortCurrent_lastSnapshot (s : Health) : s.abortCurrent.lastSnapshot = s.lastSnapshot := by
  unfold Health.abortCurrent
  split <;> rfl

theorem single_quiet {s : Health} (h : Single P s) : Quiet P s := by
  intro hstopped e he
  cases e with
  | start env now => cases he
  | stop =>
    have hstop : s.stopConnectionHealth = s := if_pos hstopped
    exact ⟨rfl, congrArg Health.lastSnapshot hstop⟩
  | startTimeout env now =>
    unfold step
    dsimp only
    split
    · exact ⟨rfl, rfl⟩
    · rw [if_neg (by rw [hstopped]; exact Bool.false_ne_true)]
      exact ⟨rfl, rfl⟩
  | reconnectTimeout env now =>
    rw [show step P s (.reconnectTimeout env now) = (s, []) from if_pos (h.unscheduled hstopped)]
    exact ⟨rfl, rfl⟩
  | requestTimeout id =>
    unfold step
    dsimp only
    split
    · exact ⟨rfl, abortCurrent_lastSnapshot _⟩
    · exact ⟨rfl, rfl⟩
  | settle id r => exact ⟨rfl, rfl⟩
  | resume id env now =>
    rcases step_resume h id env now with hstep | ⟨l, hl, r, hr, hstep⟩ <;> rw [hstep]
    · exact ⟨rfl, rfl⟩
    · exact (resume_step h hl hr env now).2.2 hstopped

/-- A stop now aborts what the loop waits for. -/
def Stoppable (s : Health) (l : Loop) : Prop := ∃ c, l.signal = some c ∧ c ∈ s.stopConnectionHealth.aborted

theorem single_stoppable {s : Health} (h : Single P s) {l : Loop} (hl : l ∈ s.loops) :
    Stoppable s l ↔ l.phase.isAuthHeaders = false := by
  constructor
  · rintro ⟨c, hsignal, -⟩
    by_contra hauth
    rw [Bool.not_eq_false] at hauth
    rw [h.headers l hl hauth] at hsignal
    cases hsignal
  · intro hauth
    unfold Stoppable Health.stopConnectionHealth
    split
    · next hstopped => exact (h.unwinding hstopped l hl).signal
    · obtain ⟨c, hsignal, hc⟩ := h.reached l hl hauth
      obtain ⟨f, hf, -⟩ := abortCurrent_moved { s with running := false, reconnectTimer := none }
      exact ⟨c, hsignal, hc.elim (fun hc => abort_mem_aborted (s := { s with running := false, reconnectTimer := none }) hc)
        (hf.aborted c)⟩

variable (P) in
/-- Every step of the run is clean. -/
def CleanRun : Health → List Event → Prop
  | _, [] => True
  | s, e :: es => Clean P s e ∧ CleanRun (step P s e).1 es

theorem run_single {s : Health} (h : Single P s) {events : List Event} (hclean : CleanRun P s events) :
    Single P ((machine P).run s events) := by
  induction events generalizing s with
  | nil => exact h
  | cons e es ih => exact ih (step_single h hclean.1) hclean.2

theorem CleanRun.take {s : Health} {before after : List Event} (h : CleanRun P s (before ++ after)) : CleanRun P s before := by
  induction before generalizing s with
  | nil => trivial
  | cons e es ih => exact ⟨h.1, ih h.2⟩

/-- In a run whose starts and stops are clean there is never more than one loop, nothing is
sent or stored after a stop, and a stop reaches the loop, unless it waits for its headers. -/
theorem single_loop_and_silence {P : Platform} {events : List Event} (hclean : CleanRun P initial events) (before after : List Event)
    (hevents : events = before ++ after) :
    let s := (machine P).run initial before
    s.loops.length ≤ 1 ∧ Quiet P s ∧
      ((∀ l ∈ s.loops, Stoppable s l) ↔ ∀ l ∈ s.loops, l.phase.isAuthHeaders = false) := by
  intro s
  rw [hevents] at hclean
  have h : Single P s := run_single single_initial hclean.take
  refine ⟨(Nat.le_add_right _ _).trans h.single, single_quiet h, ?_⟩
  exact forall₂_congr fun l hl => single_stoppable h hl

instance (P : Platform) (s : Health) (e : Event) : Decidable (Clean P s e) :=
  match e with
  | .start .. => inferInstanceAs (Decidable (_ ∨ _ ∨ _ ∧ _))
  | .stop => inferInstanceAs (Decidable (_ → _))
  | .startTimeout .. | .reconnectTimeout .. | .requestTimeout _ | .settle .. | .resume .. => isTrue trivial

instance CleanRun.decidable (P : Platform) : (s : Health) → (events : List Event) → Decidable (CleanRun P s events)
  | _, [] => isTrue trivial
  | s, e :: es =>
    have := CleanRun.decidable P (step P s e).1 es
    inferInstanceAs (Decidable (_ ∧ _))

end

/-- A compatibility stream, with the URL in its normal form. -/
def streamEnv : Env := ⟨some (str "http://127.0.0.1:9900/status"), some (str "1"), none, none, none, none⟩

def streamPlatform (rejectsSecond : Bool) : Platform where
  normalizeServiceBaseUrl := id
  normalizeServiceEndpointUrl := id
  pathname _ := str "/status"
  host _ := str "127.0.0.1:9900"
  tasksUrl _ := str "http://127.0.0.1:9900/v1/tasks"
  toText
    | .str s => some s
    | _ => none
  toNumber
    | .num n => .ok n
    | _ => .error (str "not a number")
  abortMessage := str "This operation was aborted"
  rejectsSecond := rejectsSecond

def streamOpened : List Event := [.start streamEnv 1, .startTimeout streamEnv 2, .settle 0 (.headers []), .resume 0 streamEnv 3]

def streamResponse : Response := ⟨⟨true, true, 200, some (ofString "text/event-stream")⟩, none⟩

/-- A stream that is opened, read, stopped and started again. -/
def streamRun : List Event :=
  streamOpened ++ [.settle 0 (.response streamResponse), .resume 0 streamEnv 4, .stop, .resume 0 streamEnv 5, .start streamEnv 6]

theorem single_loop_and_silence_stream :
    let s := (machine (streamPlatform true)).run initial streamRun
    s.loops.length ≤ 1 ∧ Quiet (streamPlatform true) s ∧
      ((∀ l ∈ s.loops, Stoppable s l) ↔ ∀ l ∈ s.loops, l.phase.isAuthHeaders = false) :=
  single_loop_and_silence (show CleanRun (streamPlatform true) initial streamRun by decide +kernel) streamRun [] rfl

/-- A stop while the headers are awaited: the request is sent afterwards. -/
def stoppedAtHeaders : List Event := [.start streamEnv 1, .startTimeout streamEnv 2, .stop, .settle 0 (.headers [])]

/-- Where `ipcMain.handle` takes the second handler: the timer of the first start is still
pending at the second. -/
def startedTwice : List Event :=
  [.start streamEnv 1, .stop, .start streamEnv 2, .startTimeout streamEnv 3, .startTimeout streamEnv 4]

theorem loop_out_of_reach :
    ¬ Quiet (streamPlatform true) ((machine (streamPlatform true)).run initial stoppedAtHeaders) ∧
      (∃ l ∈ ((machine (streamPlatform true)).run initial (stoppedAtHeaders.take 2)).loops,
        ¬ Stoppable ((machine (streamPlatform true)).run initial (stoppedAtHeaders.take 2)) l) ∧
      1 < ((machine (streamPlatform false)).run initial startedTwice).loops.length := by
  refine ⟨?_, ⟨⟨0, .authHeaders (str "http://127.0.0.1:9900/status"), none, none, false, none⟩, ?_, ?_⟩, by decide +kernel⟩
  · intro h
    have hlength : ((step (streamPlatform true) ((machine (streamPlatform true)).run initial stoppedAtHeaders)
        (.resume 0 streamEnv 3)).2).length = 1 := by decide +kernel
    rw [(h (by decide +kernel) _ rfl).1] at hlength
    cases hlength
  · exact List.mem_singleton_self _
  · rintro ⟨c, hc, -⟩
    cases hc

end AgentWorkflow.Desktop.Connection
