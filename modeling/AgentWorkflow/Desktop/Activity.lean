import AgentWorkflow.Lib.JsValue
import AgentWorkflow.Lib.Machine

/-!
# The activity store (`src/stores/activity.ts`)

The stream of activity events, the timer that every error of a stream sets, and the calls
between them. A stream stays open until its handle closes it.
-/

namespace AgentWorkflow.Desktop.Activity
open AgentWorkflow.Lib AgentWorkflow.Lib.Js

structure ActivityEvent where
  id : Str
  phase : Str
  status : Str
deriving DecidableEq

/-- A stream that `createSSEStream` returned; its loop may have ended. -/
structure Stream where
  id : ℕ
  task : Option Str
  running : Bool
deriving DecidableEq

/-- A pending `setTimeout` of 5 seconds, with the stream whose error set it. -/
structure Timer where
  stream : ℕ
  task : Option Str
deriving DecidableEq

structure Store where
  events : List ActivityEvent
  connected : Bool
  error : Option Str
  sseHandle : Option ℕ
  streams : List Stream
  timers : List Timer
  made : ℕ
deriving DecidableEq

def initial : Store := ⟨[], false, none, none, [], [], 0⟩

inductive Message
  | alive
  | activity (evt : ActivityEvent)

/-- `_processEvent` -/
def processEvent (evt : ActivityEvent) (events : List ActivityEvent) : List ActivityEvent :=
  let placed :=
    if events.any fun e => decide (e.id = evt.id) then
      events.set (events.findIdx fun e => decide (e.id = evt.id)) evt
    else events ++ [evt]
  if evt.status = str "completed" ∨ evt.status = str "failed" then
    placed.map fun e => if e.id ≠ evt.id ∧ e.phase = evt.phase ∧ e.status = str "running" then { e with status := str "completed" } else e
  else placed

def Store.disconnect (s : Store) : Store :=
  { s with
    streams := s.streams.filter fun stream => decide (s.sseHandle ≠ some stream.id)
    sseHandle := none
    connected := false }

/-- `createSSEStream` throws where `served` is false: the base address is not valid. -/
def Store.connect (task : Option Str) (served : Bool) (s : Store) : Store :=
  let s := s.disconnect
  if served then
    { s with
      streams := s.streams ++ [⟨s.made, task, true⟩]
      sseHandle := some s.made
      made := s.made + 1
      connected := true
      error := none }
  else s

def Store.clear (s : Store) : Store := { s with events := [] }

def Store.reset (s : Store) : Store := { s.disconnect.clear with error := none }

/-- The loop of the stream ends. -/
def Store.endLoop (id : ℕ) (s : Store) : Store :=
  { s with streams := s.streams.map fun stream => if stream.id = id then { stream with running := false } else stream }

def Store.onMessage (message : Message) (s : Store) : Store :=
  match message with
  | .alive => { s with connected := true }
  | .activity evt => { s with events := processEvent evt s.events }

def Store.onError (stream : Stream) (message : Str) (s : Store) : Store :=
  { s with
    error := some message
    connected := false
    timers := s.timers ++ [⟨stream.id, stream.task⟩] }

inductive Event
  | connect (task : Option Str) (served : Bool)
  | disconnect
  | reset
  | message (id : ℕ) (message : Message)
  | ended (id : ℕ)
  | failed (id : ℕ) (message : Str)
  /-- The timer that the error of this stream set. -/
  | fire (id : ℕ) (served : Bool)

/-- A stream whose loop still runs. -/
def Store.running (id : ℕ) (s : Store) : Option Stream := s.streams.find? fun stream => decide (stream.id = id) && stream.running

def Store.pending (id : ℕ) (s : Store) : Option Timer := s.timers.find? fun timer => decide (timer.stream = id)

def Store.fire (timer : Timer) (served : Bool) (s : Store) : Store :=
  let s := { s with timers := s.timers.erase timer }
  if s.sseHandle = none then s.connect timer.task served else s

def Store.step (s : Store) : Event → Store
  | .connect task served => s.connect task served
  | .disconnect => s.disconnect
  | .reset => s.reset
  -- the lines of a chunk already read are still handed over after the handle was closed
  | .message id message => if id < s.made then s.onMessage message else s
  | .ended id => match s.running id with
    | none => s
    | some _ => s.endLoop id
  | .failed id message => match s.running id with
    | none => s
    | some stream => (s.endLoop id).onError stream message
  | .fire id served => match s.pending id with
    | none => s
    | some timer => s.fire timer served

/-- The task of the stream that a step opens. -/
def Store.opens (s : Store) (e : Event) : Option (Option Str) :=
  ((s.step e).streams.find? fun stream => decide (s.made ≤ stream.id)).map Stream.task

/-! ### What is wanted -/

/-- The store with what was called last, altogether and since the error of each stream:
`true` for `connect`, `false` for `disconnect` and `reset`. -/
structure Watched where
  store : Store
  last : Option Bool
  since : ℕ → Option Bool

def Watched.called (connects : Bool) (store : Store) : Watched := ⟨store, some connects, fun _ => some connects⟩

def Watched.step (w : Watched) (e : Event) : Watched × Option (Option Str) :=
  (match e with
    | .connect _ _ => .called true (w.store.step e)
    | .disconnect | .reset => .called false (w.store.step e)
    | .failed id _ =>
      ⟨w.store.step e, w.last, if (w.store.running id).isSome then Function.update w.since id none else w.since⟩
    | _ => ⟨w.store.step e, w.last, w.since⟩,
    w.store.opens e)

def machine : Machine Watched Event (Option (Option Str)) := ⟨Watched.step⟩

def watched : Watched := ⟨initial, none, fun _ => none⟩

/-- A timer that fires with no call since the error opens a stream for the same task, and
with `disconnect` or `reset` as the last call only `connect` opens one. -/
structure Reconnects (w : Watched) (e : Event) : Prop where
  reopens : ∀ id timer, e = .fire id true → w.store.pending id = some timer → w.since id = none → w.store.opens e = some timer.task
  rests : w.last = some false → (∀ task served, e ≠ .connect task served) → w.store.opens e = none

/-- A timer fires only when `connect` was called since the error, and last. -/
def Superseded (w : Watched) (e : Event) : Prop :=
  ∀ id, e = .fire id true → (w.store.pending id).isSome = true → w.since id = some true

/-! ### One stream -/

/-- The handle is that of the only stream. -/
structure Single (s : Store) : Prop where
  streams : s.streams.map Stream.id = s.sseHandle.toList
  made : ∀ id ∈ s.sseHandle, id < s.made

theorem Single.id_lt {s : Store} (h : Single s) {stream : Stream} (hs : stream ∈ s.streams) : stream.id < s.made := by
  have hmem : stream.id ∈ s.streams.map Stream.id := List.mem_map_of_mem hs
  rw [h.streams, Option.mem_toList] at hmem
  exact h.made _ hmem

theorem Single.disconnect_streams {s : Store} (h : Single s) : s.disconnect.streams = [] := by
  simp only [Store.disconnect, List.filter_eq_nil_iff, decide_eq_true_eq, not_not]
  intro stream hs
  have hmem : stream.id ∈ s.streams.map Stream.id := List.mem_map_of_mem hs
  rw [h.streams, Option.mem_toList] at hmem
  exact hmem

theorem Single.disconnect {s : Store} (h : Single s) : Single s.disconnect :=
  ⟨by rw [h.disconnect_streams]; rfl, fun id hid => nomatch hid⟩

theorem Single.connect_streams {s : Store} (h : Single s) (task : Option Str) (served : Bool) :
    (s.connect task served).streams = if served then [⟨s.made, task, true⟩] else [] := by
  have hempty := h.disconnect_streams
  cases served with
  | true =>
    show s.disconnect.streams ++ [⟨s.made, task, true⟩] = [⟨s.made, task, true⟩]
    rw [hempty]
    rfl
  | false => exact hempty

theorem Single.connect {s : Store} (h : Single s) (task : Option Str) (served : Bool) : Single (s.connect task served) := by
  have hstreams := h.connect_streams task served
  cases served with
  | true =>
    refine ⟨by rw [hstreams]; rfl, fun id hid => ?_⟩
    cases hid
    exact Nat.lt_succ_self _
  | false => exact h.disconnect

theorem endLoop_ids (id : ℕ) (s : Store) : (s.endLoop id).streams.map Stream.id = s.streams.map Stream.id := by
  simp only [Store.endLoop, List.map_map]
  refine List.map_congr_left fun stream _ => ?_
  simp only [Function.comp_apply]
  split <;> rfl

/-- Only calls and timers change the handle or the streams that are open. -/
theorem step_apart {s : Store} {e : Event} (hcall : ∀ task served, e ≠ .connect task served) (hoff : e ≠ .disconnect ∧ e ≠ .reset)
    (hfire : ∀ id served, e ≠ .fire id served) :
    (s.step e).streams.map Stream.id = s.streams.map Stream.id ∧ (s.step e).sseHandle = s.sseHandle ∧ (s.step e).made = s.made := by
  cases e with
  | connect task served => exact absurd rfl (hcall task served)
  | disconnect => exact absurd rfl hoff.1
  | reset => exact absurd rfl hoff.2
  | fire id served => exact absurd rfl (hfire id served)
  | message id message =>
    simp only [Store.step]
    split
    · cases message <;> exact ⟨rfl, rfl, rfl⟩
    · exact ⟨rfl, rfl, rfl⟩
  | ended id =>
    simp only [Store.step]
    cases s.running id with
    | none => exact ⟨rfl, rfl, rfl⟩
    | some stream => exact ⟨endLoop_ids id s, rfl, rfl⟩
  | failed id message =>
    simp only [Store.step]
    cases s.running id with
    | none => exact ⟨rfl, rfl, rfl⟩
    | some stream => exact ⟨endLoop_ids id s, rfl, rfl⟩

theorem Single.fire {s : Store} (h : Single s) (timer : Timer) (served : Bool) : Single (s.fire timer served) := by
  have herased : Single { s with timers := s.timers.erase timer } := ⟨h.streams, h.made⟩
  unfold Store.fire
  dsimp only
  split
  · exact herased.connect timer.task served
  · exact herased

theorem Single.step {s : Store} (h : Single s) (e : Event) : Single (s.step e) := by
  have hother : (s.step e).streams.map Stream.id = s.streams.map Stream.id ∧ (s.step e).sseHandle = s.sseHandle ∧
      (s.step e).made = s.made → Single (s.step e) := by
    intro ⟨hids, hhandle, hmade⟩
    refine ⟨by rw [hids, hhandle]; exact h.streams, fun id hid => ?_⟩
    rw [hmade]
    exact h.made id (hhandle ▸ hid)
  cases e with
  | connect task served => exact h.connect task served
  | disconnect => exact h.disconnect
  | reset => exact ⟨h.disconnect.streams, h.disconnect.made⟩
  | fire id served =>
    simp only [Store.step]
    cases s.pending id with
    | none => exact h
    | some timer => exact h.fire timer served
  | message id message => exact hother (step_apart nofun ⟨nofun, nofun⟩ nofun)
  | ended id => exact hother (step_apart nofun ⟨nofun, nofun⟩ nofun)
  | failed id message => exact hother (step_apart nofun ⟨nofun, nofun⟩ nofun)

/-! ### What a step opens -/

theorem opens_none {s : Store} {e : Event} (h : ∀ id ∈ (s.step e).streams.map Stream.id, id < s.made) : s.opens e = none := by
  unfold Store.opens
  rw [Option.map_eq_none_iff, List.find?_eq_none]
  intro stream hs
  have hlt := h stream.id (List.mem_map_of_mem hs)
  simp only [decide_eq_true_eq]
  omega

theorem opens_apart {s : Store} (h : Single s) {e : Event} (hcall : ∀ task served, e ≠ .connect task served)
    (hfire : ∀ id served, e ≠ .fire id served) : s.opens e = none := by
  apply opens_none
  by_cases hoff : e = .disconnect ∨ e = .reset
  · have hempty : (s.step e).streams = [] := by
      rcases hoff with rfl | rfl
      · exact h.disconnect_streams
      · exact h.disconnect_streams
    rw [hempty]
    exact fun id hid => nomatch hid
  · rw [not_or] at hoff
    rw [(step_apart hcall hoff hfire).1]
    intro id hid
    rw [h.streams, Option.mem_toList] at hid
    exact h.made id hid

/-- A timer opens a stream when there is no handle. -/
theorem opens_fire {s : Store} (h : Single s) {id : ℕ} {timer : Timer} (ht : s.pending id = some timer) (served : Bool) :
    s.opens (.fire id served) = if s.sseHandle = none ∧ served = true then some timer.task else none := by
  have herased : Single { s with timers := s.timers.erase timer } := ⟨h.streams, h.made⟩
  have hstep : s.step (.fire id served) = s.fire timer served := by
    simp only [Store.step]
    rw [ht]
  by_cases hhandle : s.sseHandle = none
  · have hstreams : (s.step (.fire id served)).streams = if served then [⟨s.made, timer.task, true⟩] else [] := by
      rw [hstep, Store.fire, if_pos hhandle]
      exact herased.connect_streams timer.task served
    unfold Store.opens
    rw [hstreams]
    cases served with
    | true => simp [hhandle]
    | false => simp
  · rw [if_neg fun hboth => hhandle hboth.1]
    apply opens_none
    have hstreams : (s.step (.fire id served)).streams = s.streams := by
      rw [hstep, Store.fire, if_neg hhandle]
    rw [hstreams]
    intro id hid
    rw [h.streams, Option.mem_toList] at hid
    exact h.made id hid

/-! ### Runs -/

/-- What holds as long as every timer that fired was superseded. -/
structure Held (w : Watched) : Prop where
  single : Single w.store
  since : ∀ id, w.since id = none ∨ w.since id = w.last
  unseen : ∀ timer ∈ w.store.timers, w.since timer.stream = none → w.store.sseHandle = some timer.stream
  off : w.last = some false → w.store.sseHandle = none

theorem held_initial : Held watched :=
  ⟨⟨rfl, nofun⟩, fun _ => Or.inl rfl, fun _ h => (nomatch h), nofun⟩

theorem running_handle {s : Store} (h : Single s) {id : ℕ} {stream : Stream} (hr : s.running id = some stream) :
    s.sseHandle = some id ∧ stream.id = id := by
  have hmem := List.mem_of_find?_eq_some hr
  have hfound := List.find?_some hr
  simp only [Bool.and_eq_true, decide_eq_true_eq] at hfound
  have hids : stream.id ∈ s.streams.map Stream.id := List.mem_map_of_mem hmem
  rw [h.streams, Option.mem_toList, hfound.1] at hids
  exact ⟨hids, hfound.1⟩

theorem Held.fire {w : Watched} (h : Held w) (id : ℕ) (timer : Timer) {served : Bool}
    (hk : served = true → w.since id = some true) : Held ⟨w.store.fire timer served, w.last, w.since⟩ := by
  refine ⟨h.single.fire timer served, h.since, ?_, ?_⟩
  · intro other hother hnone
    have hbefore : other ∈ w.store.timers := by
      unfold Store.fire at hother
      dsimp only at hother
      split at hother
      · cases served with
        | true => exact List.mem_of_mem_erase hother
        | false => exact List.mem_of_mem_erase hother
      · exact List.mem_of_mem_erase hother
    have hhandle := h.unseen other hbefore hnone
    unfold Store.fire
    dsimp only
    rw [if_neg (by rw [hhandle]; simp)]
    exact hhandle
  · intro hlast
    have hhandle := h.off hlast
    have hserved : served = false := by
      cases served with
      | false => rfl
      | true =>
        have hsince := (h.since id).resolve_left (by rw [hk rfl]; simp)
        rw [hk rfl, hlast] at hsince
        cases hsince
    unfold Store.fire
    dsimp only
    rw [if_pos hhandle, hserved]
    rfl

theorem held_step {w : Watched} (e : Event) (h : Held w) (hk : Superseded w e) : Held (w.step e).1 := by
  have hsingle := h.single.step e
  cases e with
  | connect task served => exact ⟨hsingle, fun _ => Or.inr rfl, fun _ _ hnone => (nomatch hnone), fun hlast => nomatch hlast⟩
  | disconnect => exact ⟨hsingle, fun _ => Or.inr rfl, fun _ _ hnone => (nomatch hnone), fun _ => rfl⟩
  | reset => exact ⟨hsingle, fun _ => Or.inr rfl, fun _ _ hnone => (nomatch hnone), fun _ => rfl⟩
  | message id message =>
    have hsame := step_apart (s := w.store) (e := .message id message) nofun ⟨nofun, nofun⟩ nofun
    have htimers : (w.store.step (.message id message)).timers = w.store.timers := by
      simp only [Store.step]
      split
      · cases message <;> rfl
      · rfl
    refine ⟨hsingle, h.since, ?_, fun hlast => hsame.2.1.trans (h.off hlast)⟩
    intro timer ht hnone
    exact hsame.2.1.trans (h.unseen timer (htimers ▸ ht) hnone)
  | ended id =>
    have hsame := step_apart (s := w.store) (e := .ended id) nofun ⟨nofun, nofun⟩ nofun
    have htimers : (w.store.step (.ended id)).timers = w.store.timers := by
      simp only [Store.step]
      cases w.store.running id <;> rfl
    refine ⟨hsingle, h.since, ?_, fun hlast => hsame.2.1.trans (h.off hlast)⟩
    intro timer ht hnone
    exact hsame.2.1.trans (h.unseen timer (htimers ▸ ht) hnone)
  | failed id message =>
    have hsame := step_apart (s := w.store) (e := .failed id message) nofun ⟨nofun, nofun⟩ nofun
    cases hr : w.store.running id with
    | none =>
      have hstore : w.store.step (.failed id message) = w.store := by
        simp only [Store.step]
        rw [hr]
      have hstep : (w.step (.failed id message)).1 = ⟨w.store, w.last, w.since⟩ := by
        simp only [Watched.step, hstore, hr, Option.isSome_none, Bool.false_eq_true, if_false]
      rw [hstep]
      exact h
    | some stream =>
      obtain ⟨hhandle, hid⟩ := running_handle h.single hr
      have hstore : w.store.step (.failed id message) = (w.store.endLoop id).onError stream message := by
        simp only [Store.step]
        rw [hr]
      have hstep : (w.step (.failed id message)).1 =
          ⟨(w.store.endLoop id).onError stream message, w.last, Function.update w.since id none⟩ := by
        simp only [Watched.step, hstore, hr, Option.isSome_some, if_true]
      rw [hstore] at hsingle
      rw [hstep]
      refine ⟨hsingle, fun other => ?_, ?_, fun hlast => h.off hlast⟩
      · dsimp only
        by_cases hother : other = id
        · exact Or.inl (by rw [hother, Function.update_self])
        · rw [Function.update_of_ne hother]
          exact h.since other
      · intro timer ht hnone
        rcases List.mem_append.mp ht with ht | ht
        · by_cases hother : timer.stream = id
          · rw [hother]
            exact hhandle
          · dsimp only at hnone
            rw [Function.update_of_ne hother] at hnone
            exact h.unseen timer ht hnone
        · rw [List.mem_singleton] at ht
          rw [ht]
          exact hhandle.trans (congrArg some hid.symm)
  | fire id served =>
    cases ht : w.store.pending id with
    | none =>
      have hstep : (w.step (.fire id served)).1 = ⟨w.store, w.last, w.since⟩ := by
        simp only [Watched.step, Store.step, ht]
      rw [hstep]
      exact h
    | some timer =>
      have hstep : (w.step (.fire id served)).1 = ⟨w.store.fire timer served, w.last, w.since⟩ := by
        simp only [Watched.step, Store.step, ht]
      rw [hstep]
      refine h.fire id timer fun hserved => ?_
      rw [hserved] at hk
      exact hk id rfl (by rw [ht]; rfl)

/-- The steps that reconnect as wanted are those that fire superseded timers only. -/
theorem reconnects_iff {w : Watched} (e : Event) (h : Held w) : Reconnects w e ↔ Superseded w e := by
  constructor
  · rintro hgood id rfl hpending
    obtain ⟨timer, ht⟩ := Option.isSome_iff_exists.mp hpending
    have hopens := opens_fire h.single ht true
    cases hsince : w.since id with
    | none =>
      have hmem := List.mem_of_find?_eq_some ht
      have hid : timer.stream = id := by
        have hfound := List.find?_some ht
        exact of_decide_eq_true hfound
      have hhandle := h.unseen timer hmem (by rw [hid]; exact hsince)
      have htask := hgood.reopens id timer rfl ht hsince
      rw [hopens, if_neg (by rw [hhandle]; simp)] at htask
      cases htask
    | some connects =>
      cases connects with
      | true => rfl
      | false =>
        have hlast : w.last = some false := ((h.since id).resolve_left (by rw [hsince]; simp)).symm.trans hsince
        have hnone := hgood.rests hlast nofun
        rw [hopens, if_pos ⟨h.off hlast, rfl⟩] at hnone
        cases hnone
  · intro hk
    refine ⟨?_, ?_⟩
    · rintro id timer rfl ht hnone
      have htrue := hk id rfl (by rw [ht]; rfl)
      rw [hnone] at htrue
      cases htrue
    · intro hlast hconnect
      by_cases hfire : ∃ id served, e = .fire id served
      · obtain ⟨id, served, rfl⟩ := hfire
        cases ht : w.store.pending id with
        | none =>
          apply opens_none
          have hsame : w.store.step (.fire id served) = w.store := by
            simp only [Store.step]
            rw [ht]
          rw [hsame]
          intro other hother
          obtain ⟨stream, hs, rfl⟩ := List.mem_map.mp hother
          exact h.single.id_lt hs
        | some timer =>
          rw [opens_fire h.single ht]
          refine if_neg fun ⟨_, hserved⟩ => ?_
          rw [hserved] at hk
          have htrue := hk id rfl (by rw [ht]; rfl)
          have hsince := (h.since id).resolve_left (by rw [htrue]; simp)
          rw [htrue, hlast] at hsince
          cases hsince
      · exact opens_apart h.single hconnect fun id served he => hfire ⟨id, served, he⟩

theorem watched_store (w : Watched) (e : Event) : (w.step e).1.store = w.store.step e := by
  cases e <;> rfl

theorem step_single {w : Watched} (h : Single w.store) (e : Event) : Single (machine.step w e).1.store := by
  show Single (w.step e).1.store
  rw [watched_store]
  exact h.step e

/-- At most one stream is open after every run; and the stream is opened again exactly as
wanted in the runs whose timers all fire after `connect` was called since the error, and last. -/
theorem activity_stream (is : List Event) :
    (machine.run watched is).store.streams.length ≤ 1 ∧
      ((∀ is₁ e is₂, is = is₁ ++ e :: is₂ → Reconnects (machine.run watched is₁) e) ↔
        ∀ is₁ e is₂, is = is₁ ++ e :: is₂ → Superseded (machine.run watched is₁) e) := by
  constructor
  · have hsingle : Single (machine.run watched is).store :=
      machine.run_invariant (P := fun w => Single w.store) (fun w e h => step_single h e) watched is held_initial.single
    have hlength := congrArg List.length hsingle.streams
    rw [List.length_map] at hlength
    rw [hlength]
    cases (machine.run watched is).store.sseHandle <;> simp
  · exact machine.run_exact_steps held_initial (fun w e h hk => held_step e h hk) (fun w e h => reconnects_iff e h) is

/-- After an error the timer opens no stream, and after `disconnect` it opens one. -/
theorem activity_stream_fails :
    ¬ Reconnects (machine.run watched [.connect (some (str "t1")) true, .failed 0 (str "sse_idle_timeout")]) (.fire 0 true) ∧
    ¬ Reconnects (machine.run watched [.connect (some (str "t1")) true, .failed 0 (str "sse_idle_timeout"), .disconnect])
      (.fire 0 true) := by
  constructor
  · intro h
    have hopened := h.reopens 0 ⟨0, some (str "t1")⟩ rfl (by decide +kernel) (by decide +kernel)
    revert hopened
    decide +kernel
  · intro h
    have hopened := h.rests (by decide +kernel) nofun
    revert hopened
    decide +kernel

end AgentWorkflow.Desktop.Activity
