import AgentWorkflow.Desktop.ChatMarks

/-!
# Streaming only while a turn is open

What may go wrong with a thread is said for each step apart (`Kept`): the step ends the
last open turn of the thread and leaves a mark of it, or it moves the streaming state of
one thread to another.
-/

namespace AgentWorkflow.Desktop.Chat
open AgentWorkflow.Lib AgentWorkflow.Lib.Calendar

namespace System
variable (cfg : Config)

/-! ### Open turns -/

/-- The thread has an open turn that is none of `ns`. -/
def OpenBeside (ns : List ℕ) (id : ThreadId) (s : System) : Prop :=
  ∃ m t, s.turns[m]? = some t ∧ t.thread = id ∧ t.ended = false ∧ m ∉ ns

theorem OpenBeside.opened {ns : List ℕ} {id : ThreadId} {s : System} (h : OpenBeside ns id s) : Open id s := by
  obtain ⟨m, t, hm, hid, hended, -⟩ := h
  exact ⟨t, List.mem_of_getElem? hm, hid, hended⟩

theorem openBeside_nil {id : ThreadId} {s : System} (h : Open id s) : OpenBeside [] id s := by
  obtain ⟨t, ht, hid, hended⟩ := h
  obtain ⟨m, hm⟩ := List.mem_iff_getElem?.mp ht
  exact ⟨m, t, hm, hid, hended, List.not_mem_nil⟩

theorem Open.of_turns {id : ThreadId} {s s' : System} (h : Open id s) (ht : s'.turns = s.turns) : Open id s' := by
  unfold Open
  rw [ht]
  exact h

theorem OpenBeside.endTurn {n : ℕ} {id : ThreadId} {s : System} (h : OpenBeside [n] id s) : Open id (endTurn n s) := by
  obtain ⟨m, t, hm, hid, hended, hne⟩ := h
  refine ⟨t, List.mem_of_getElem? (i := m) ?_, hid, hended⟩
  show (s.turns.modify n _)[m]? = some t
  rw [List.getElem?_modify, hm, Option.map_eq_map, Option.map_some,
    if_neg (fun heq => hne (List.mem_singleton.mpr heq.symm))]

theorem OpenBeside.crashTurns {ns : List ℕ} {id : ThreadId} {s : System} (h : OpenBeside ns id s) :
    Open id (crashTurns ns s) := by
  obtain ⟨m, t, hm, hid, hended, hne⟩ := h
  refine ⟨t, List.mem_of_getElem? (i := m) ?_, hid, hended⟩
  show (s.turns.mapIdx _)[m]? = some t
  rw [List.getElem?_mapIdx, hm, Option.map_some, if_neg (fun hboth => hne hboth.1)]

theorem Open.reopenTurn {id : ThreadId} {s : System} (h : Open id s) (n : ℕ) : Open id (reopenTurn n s) := by
  obtain ⟨t, ht, hid, hended⟩ := h
  obtain ⟨m, hm⟩ := List.mem_iff_getElem?.mp ht
  have hget : (s.turns.modify n fun t => { t with ended := false })[m]? =
      some (if n = m then { t with ended := false } else t) := by
    rw [List.getElem?_modify, hm, Option.map_eq_map, Option.map_some]
  refine ⟨_, List.mem_of_getElem? hget, ?_, ?_⟩
  · split
    · exact hid
    · exact hid
  · split
    · rfl
    · exact hended

theorem open_reopenTurn {id : ThreadId} {s : System} {n : ℕ} (h : (s.turns[n]?).map Turn.thread = some id) :
    Open id (reopenTurn n s) := by
  obtain ⟨t, ht, hid⟩ := Option.map_eq_some_iff.mp h
  refine ⟨{ t with ended := false }, List.mem_of_getElem? (i := n) ?_, hid, rfl⟩
  show (s.turns.modify n _)[n]? = _
  rw [List.getElem?_modify_eq, ht, Option.map_eq_map, Option.map_some]

/-! ### The invariant -/

def Waiting (s : System) : Prop := ∃ c ∈ s.selects, c.pending = true

/-- Marks of the thread, and the view while it is active, stand for an open turn. -/
structure Live (id : ThreadId) (s : System) : Prop where
  marks : ∀ t ∈ s.store.threads, t.id = id → t.isStreaming = true → Open id s
  view : s.store.activeId = id → s.store.view.streaming = true → Open id s ∨ Waiting s

/-- The turns `ns` may end: the thread has another open one, or its marks and the view
are reset with them. -/
def Dropped (ns : List ℕ) (id : ThreadId) (s : System) (clears : Thread → Prop) (off : Prop) : Prop :=
  OpenBeside ns id s ∨
    (∀ t ∈ s.store.threads, t.id = id → t.isStreaming = true → clears t) ∧
      (s.store.activeId = id → s.store.view.streaming = true → off ∨ Waiting s)

theorem Dropped.live {ns : List ℕ} {id : ThreadId} {s s' : System} {clears : Thread → Prop} {off : Prop}
    (h : Dropped ns id s clears off) (hopen : OpenBeside ns id s → Open id s')
    (hl : Lowered s.store s'.store clears off) (hw : s'.selects = s.selects) : Live id s' := by
  cases h with
  | inl h => exact ⟨fun _ _ _ _ => hopen h, fun _ _ => Or.inl (hopen h)⟩
  | inr h =>
    constructor
    · intro t' ht' hid hs
      obtain ⟨t, ht, hid', hs', hnot⟩ := hl.marks t' ht' hs
      exact absurd (h.1 t ht (hid'.trans hid) hs') hnot
    · intro hid hs
      obtain ⟨hs', hnot⟩ := hl.view hs
      right
      unfold Waiting
      rw [hw]
      exact (h.2 (hl.active.symm.trans hid) hs').resolve_left hnot

theorem Dropped.of_eq {ns : List ℕ} {id : ThreadId} {s s' : System} {clears : Thread → Prop} {off : Prop}
    (h : Dropped ns id s clears off) (ht : s'.turns = s.turns) (hth : s'.store.threads = s.store.threads)
    (ha : s'.store.activeId = s.store.activeId) (hv : s'.store.view.streaming = s.store.view.streaming)
    (hw : s'.selects = s.selects) : Dropped ns id s' clears off := by
  unfold Dropped OpenBeside Waiting
  rw [ht, hth, ha, hv, hw]
  exact h

theorem Live.dropped {id : ThreadId} {s : System} (h : Live id s) : Dropped [] id s (fun _ => False) False := by
  by_cases hopen : Open id s
  · exact Or.inl (openBeside_nil hopen)
  · right
    refine ⟨?_, ?_⟩
    · intro t ht hid hs
      exact hopen (h.marks t ht hid hs)
    · intro hid hs
      exact Or.inr ((h.view hid hs).resolve_left hopen)

theorem Live.of_eq {id : ThreadId} {s s' : System} (h : Live id s) (hs : s'.store = s.store) (ht : s'.turns = s.turns)
    (hw : s'.selects = s.selects) : Live id s' := by
  constructor
  · rw [hs]
    intro t hmem hid hmark
    exact (h.marks t hmem hid hmark).of_turns ht
  · rw [hs]
    intro hid hview
    unfold Waiting
    rw [hw]
    exact (h.view hid hview).imp_left fun ho => ho.of_turns ht

/-- What sets neither a mark nor the view. -/
theorem Live.lowered {id : ThreadId} {s s' : System} (h : Live id s)
    (hl : Lowered s.store s'.store (fun _ => False) False) (ht : Open id s → Open id s') (hw : s'.selects = s.selects) :
    Live id s' :=
  h.dropped.live (fun ho => ht ho.opened) hl hw

theorem lowered_of_view {s s' : Store} (hf : Frame flag s s') (hv : s'.view.streaming = true → s.view.streaming = true) :
    Lowered s s' (fun _ => False) False :=
  .of_frame hf (fun _ h => h) fun hs => ⟨hv hs, id⟩

/-- The view is reset. -/
theorem lowered_off {s s' : Store} (hf : Frame flag s s') (hv : s'.view.streaming = false) :
    Lowered s s' (fun _ => False) True := by
  apply Lowered.of_frame hf
  · intro t ht
    exact ht
  · intro hs
    rw [hv] at hs
    cases hs

/-! ### What each step needs -/

/-- The steps that keep the thread from being marked, or shown as streaming, without an
open turn. -/
def Kept (id : ThreadId) (s : System) : Action → Prop
  | .createThread _ => s.store.activeId = id → s.store.view.streaming = true → Open id s
  | .selectThread id' =>
    s.store.activeId ≠ id' → s.store.activeId = id → s.store.view.streaming = true → Open id s
  | .conversation k _ =>
    ∀ c, s.selects[k]? = some c → c.pending = true → s.store.activeId = id → c.id ≠ id →
      ∀ t ∈ s.store.threads, c.target = some t.ref → t.isStreaming = true →
        Open id s ∨ ∃ j c', j ≠ k ∧ s.selects[j]? = some c' ∧ c'.pending = true
  | .startAnswer k =>
    ∀ c error, s.sends[k]? = some c → c.pc = .refused error → (c.handoff || c.lab) = true →
      Dropped [c.turn] id s (fun _ => False) True
  | .startThrows k _ =>
    ∀ c, s.sends[k]? = some c → c.pc ≠ .sending → c.pc ≠ .finished → (c.handoff || c.lab) = true →
      Dropped [c.turn] id s (fun _ => False) True
  | .sendAnswer k thrown =>
    ∀ c, s.sends[k]? = some c → c.pc = .sending → thrown ≠ none → (c.handoff || c.lab) = true →
      Dropped [c.turn] id s (fun _ => False) True
  | .event i n chunk _ =>
    ∀ x, s.sessions[i]? = some x →
      ¬ (x.exited ∨ n ∉ x.turn :: x.earlier ∨ (chunk.conversationId.getD x.conv) ≠ x.conv) → chunk.terminal = true →
        Dropped [n] id s (clears chunk (resolveChunkTarget chunk (some i) s.store))
          (silences chunk (resolveChunkTarget chunk (some i) s.store))
  | .exit i _ _ route _ =>
    ∀ x, s.sessions[i]? = some x → ¬ (x.alive ∨ x.exited) → Buried id x i route s
  | .line j chunk bridge _ =>
    ∀ x, s.streams[j]? = some x →
      ¬ (x.headed = false ∨ (x.closed ∧ x.switched = false) ∨ (chunk.conversationId.or x.conv) ≠ x.conv) →
        if chunk.type = .modeSwitch ∧ chunk.toLocalCc then bridge = false → Dropped [x.turn] id s (fun _ => False) True
        else chunk.terminal = true →
          Dropped [x.turn] id s (clears chunk (resolveChunkTarget chunk none s.store))
            (silences chunk (resolveChunkTarget chunk none s.store))
  | .httpError j _ => ∀ x, s.streams[j]? = some x → x.closed = false → Dropped [x.turn] id s (fun _ => False) True
  | .stopStreaming => s.store.activeId = id → ∀ t ∈ s.store.threads, t.id = id → t.isStreaming = false
  | _ => True
where
  /-- The exit of session `i`, which is `x`: its turns end, apart from the one sent again. -/
  Buried (id : ThreadId) (x : Session) (i : ℕ) (route : Bool) (s : System) : Prop :=
    if s.store.view.session = some i then
      if retries route s.store = true then
        (s.turns[x.turn]?).map Turn.thread = some id ∨
          Dropped (x.turn :: x.earlier) id s (fun _ => False) True ∧
            (s.store.activeId = id → OpenBeside (x.turn :: x.earlier) id s ∨ Waiting s)
      else Dropped (x.turn :: x.earlier) id s (fun _ => False) True
    else
      match backgroundOf i s.store with
      | some t => Dropped (x.turn :: x.earlier) id s (fun u => u.ref = t.ref) False
      | none => Dropped (x.turn :: x.earlier) id s (fun _ => False) False

/-! ### What is always true -/

/-- The object that a waiting `selectThread` was called for is in the list. -/
def Targets (s : System) : Prop :=
  ∀ c ∈ s.selects, c.pending = true → ∀ ref, c.target = some ref → ∃ t ∈ s.store.threads, t.ref = ref ∧ t.id = c.id

structure Sound (s : System) : Prop where
  wellFormed : WellFormed s.store
  stored : Stored s.store
  targets : Targets s

theorem Targets.frame {s s' : System} (h : Targets s) (hf : Frame ident s.store s'.store)
    (hs : ∀ c ∈ s'.selects, c.pending = true → c ∈ s.selects) : Targets s' := by
  intro c hc hp ref href
  obtain ⟨t, ht, htref, hid⟩ := h c (hs c hc hp) hp ref href
  have hmem : ident t ∈ s'.store.threads.map ident := by
    rw [hf.threads]
    exact List.mem_map_of_mem ht
  obtain ⟨t', ht', hident⟩ := List.mem_map.mp hmem
  exact ⟨t', ht', (congrArg Ident.ref hident).trans htref, (congrArg Ident.id hident).trans hid⟩

theorem selectThread_target {id : ThreadId} {fresh : ConvId} {s : Store} {ref : ℕ}
    (h : (Chat.selectThread id fresh s).1 = some ref) : ∃ t ∈ s.threads, t.ref = ref ∧ t.id = id := by
  have hleave : Frame ident s (leave s) := frame_leave s
  unfold Chat.selectThread at h
  dsimp only at h
  split at h
  · cases h
  · next t hf =>
    obtain ⟨ht, hid⟩ := findThread_some hf
    obtain ⟨u, hu, hident⟩ := hleave.mem ht
    refine ⟨u, hu, ?_, (congrArg Ident.id hident).trans hid⟩
    rw [← Option.some.inj h]
    exact congrArg Ident.ref hident

theorem targets_createThread {s : System} (h : Targets s) (now : Text) : Targets (createThread cfg now s) := by
  have hf := frame_createThread (g := ident) cfg (nextConv cfg s) now s.store
  have hbase : Targets { s with store := created cfg (nextConv cfg s) now s.store } := by
    intro c hc hp ref href
    obtain ⟨t, ht, hfound⟩ := h c hc hp ref href
    exact ⟨t, List.mem_cons_of_mem _ ht, hfound⟩
  exact hbase.frame hf fun c hc _ => hc

theorem targets_selectThread {s : System} (h : Targets s) (id : ThreadId) : Targets (selectThread cfg id false s) := by
  unfold selectThread
  split
  · simp only [Bool.false_eq_true, if_false]
    exact h
  · have hf : Frame ident { s.store with activeId := id } (Chat.selectThread id (nextConv cfg s) s.store).2 :=
      frame_selectThread (fun t _ _ => settled_ident t) _
    have hbase : Targets { s with
        store := { s.store with activeId := id }
        selects := s.selects ++ [⟨id, (Chat.selectThread id (nextConv cfg s) s.store).1, false, true⟩] } := by
      intro c hc hp ref href
      cases List.mem_append.mp hc with
      | inl hc => exact h c hc hp ref href
      | inr hc =>
        rw [List.mem_singleton.mp hc] at href ⊢
        have htarget : (Chat.selectThread id (nextConv cfg s) s.store).1 = some ref := href
        obtain ⟨t, ht, hfound⟩ := selectThread_target htarget
        exact ⟨t, ht, hfound⟩
    refine hbase.frame ?_ fun c hc _ => hc
    exact hf

theorem targets_conversation {s : System} (h : Targets s) (k : ℕ) (answer : Option Conversation) :
    Targets (conversation k answer s) := by
  unfold conversation
  split
  · exact h
  · next c _ =>
    split
    · exact h
    · have hf : Frame ident { s.store with viewOwner := c.id } (selectResolved c.id c.target answer s.store) :=
        frame_selectResolved ..
      have hbase : Targets { s with store := { s.store with viewOwner := c.id } } := h
      refine hbase.frame ?_ ?_
      · dsimp only
        split
        · exact hf.trans (.persist _)
        · exact hf
      · intro c' hc' hp
        cases List.mem_or_eq_of_mem_set hc' with
        | inl hmem => exact hmem
        | inr heq =>
          rw [heq] at hp
          cases hp

end System

/-- The operations of one user's store but the listing and the deletions. -/
def Action.streams : Action → Bool
  | .historyAnswer _ _ | .deleteAnswer _ _ _ | .setCustomer _ | .userChanged _ => false
  | _ => true

namespace System
variable (cfg : Config)

theorem stored_step {s : System} (h : Stored s.store) {a : Action} (ha : a.streams = true) :
    Stored (step cfg s a).store := by
  cases a with
  | historyAnswer | deleteAnswer | setCustomer | userChanged => cases ha
  | createThread now => exact stored_persist _
  | selectThread id =>
    unfold step selectThread
    dsimp only
    split
    · exact h
    · exact stored_selectThread h id _
  | conversation k answer =>
    unfold step conversation
    dsimp only
    split
    · exact h
    · next c _ =>
      have hf : Frame flag { s.store with viewOwner := c.id } (selectResolved c.id c.target answer s.store) :=
        frame_selectResolved ..
      have hbase : Stored { s.store with viewOwner := c.id } := h
      split
      · exact h
      · dsimp only
        split
        · exact stored_persist _
        · exact hbase.frame hf
  | sendMessage content route lab now =>
    exact h.frame (frame_sendMessage cfg content route lab now fun _ _ _ => Or.inr fun _ _ => rfl)
  | startHandled k refusal =>
    rw [step, frame_startHandled]
    exact h
  | startAnswer k => exact h.frame (frame_startAnswer ..)
  | startThrows k error => exact h.frame (frame_startThrows ..)
  | sendAnswer k thrown => exact h.frame (frame_sendAnswer ..)
  | die i => exact h
  | event i n chunk now =>
    unfold step event
    dsimp only
    split
    · exact h
    · split
      · exact h
      · exact stored_ingestChunk h _ chunk _ now
  | exit i code error route now =>
    unfold step exit
    dsimp only
    split
    · exact h
    · split
      · exact h
      · split
        · split
          · exact h
          · exact h
        · split
          · exact stored_finishBackground _ now _
          · exact h
  | headers j named => exact h.frame (frame_headers ..)
  | line j chunk bridge now =>
    unfold step line
    dsimp only
    split
    · exact h
    · split
      · exact h
      · split
        · refine Stored.frame ?_ (frame_startLocalCcTurn _ _ _)
          rw [frame_closeStream]
          exact h
        · exact stored_ingestChunk h _ chunk _ now
  | httpError j message => exact h.frame (frame_httpError ..)
  | stopStreaming => exact h.frame (frame_stopStreaming ..)
  | historyAsk => exact h
  | deleteThread id => exact h.frame (frame_deleteThread ..)
  | reload now =>
    intro t ht hs
    have hsaved : t ∈ savedThreads s.store := ht
    have hne : savedThreads s.store ≠ [] := List.ne_nil_of_mem hsaved
    have hmem : flag t ∈ (step cfg s (.reload now)).store.threads.map flag := by
      have hflags : (step cfg s (.reload now)).store.threads.map flag = (savedThreads s.store).map flag :=
        loaded_flags cfg _ now hne
      rw [hflags]
      exact List.mem_map_of_mem hsaved
    obtain ⟨u, hu, hflag⟩ := List.mem_map.mp hmem
    exact ⟨u, hu, congrArg Prod.fst hflag, (congrArg Prod.snd hflag).trans hs⟩

theorem sound_step {s : System} (h : Sound s) {a : Action} (ha : a.streams = true) : Sound (step cfg s a) := by
  refine ⟨wellFormed_step cfg s a h.wellFormed, stored_step cfg h.stored ha, ?_⟩
  by_cases hq : a.quiet = true
  · apply h.targets.frame (frame_step_ident cfg hq)
    rw [selects_step cfg hq]
    intro c hc _
    exact hc
  · cases a with
    | historyAnswer | deleteAnswer | setCustomer | userChanged => cases ha
    | createThread now => exact targets_createThread cfg h.targets now
    | selectThread id => exact targets_selectThread cfg h.targets id
    | conversation k answer => exact targets_conversation h.targets k answer
    | reload now =>
      intro c hc
      cases hc
    | _ => exact absurd rfl hq

/-! ### Every step -/

/-- A thread that is left is marked when the view was streaming. -/
theorem marks_detach {s : Store} (hu : RefsUnique s) :
    ∀ t ∈ (detachActiveStream s).threads, t.isStreaming = true →
      (∃ u ∈ s.threads, u.id = t.id ∧ u.isStreaming = true) ∨ (s.view.streaming = true ∧ t.id = s.activeId) := by
  unfold detachActiveStream
  split
  · next hview =>
    apply forall_updateActive (P := fun t => t.isStreaming = true →
      (∃ u ∈ s.threads, u.id = t.id ∧ u.isStreaming = true) ∨ (s.view.streaming = true ∧ t.id = s.activeId)) hu
    · intro t ht _ hs
      exact Or.inl ⟨t, ht, rfl, hs⟩
    · intro t ha _
      exact Or.inr ⟨hview, (activeThread_some ha).2⟩
  · intro t ht hs
    exact Or.inl ⟨t, ht, rfl, hs⟩

/-- Leaving the active thread. -/
theorem live_detach {id : ThreadId} {s : System} (h : Live id s) (hu : RefsUnique s.store)
    (hk : s.store.activeId = id → s.store.view.streaming = true → Open id s) :
    ∀ t ∈ (detachActiveStream s.store).threads, t.id = id → t.isStreaming = true → Open id s := by
  intro t ht hid hs
  cases marks_detach hu t ht hs with
  | inl hold =>
    obtain ⟨u, hu, huid, hus⟩ := hold
    exact h.marks u hu (huid.trans hid) hus
  | inr hview => exact hk (hview.2.symm.trans hid) hview.1

theorem live_createThread {id : ThreadId} {s : System} (h : Live id s) (hu : RefsUnique s.store)
    (hk : s.store.activeId = id → s.store.view.streaming = true → Open id s) (now : Text) :
    Live id (createThread cfg now s) := by
  have hopen : Open id s → Open id (createThread cfg now s) := fun ho => ho.of_turns rfl
  constructor
  · intro t ht hid hs
    have hmem : flag t ∈ (createThread cfg now s).store.threads.map flag := List.mem_map_of_mem ht
    have hflags : (createThread cfg now s).store.threads.map flag =
        (threadId s.store.counter, false) :: (detachActiveStream s.store).threads.map flag :=
      flags_createThread ..
    rw [hflags] at hmem
    cases List.mem_cons.mp hmem with
    | inl hnew =>
      have hfalse : t.isStreaming = false := congrArg Prod.snd hnew
      rw [hs] at hfalse
      cases hfalse
    | inr hold =>
      obtain ⟨u, hu', hflag⟩ := List.mem_map.mp hold
      exact hopen (live_detach h hu hk u hu' ((congrArg Prod.fst hflag).trans hid) ((congrArg Prod.snd hflag).trans hs))
  · intro _ hs
    cases hs

theorem live_selectThread {id id' : ThreadId} {s : System} (h : Live id s) (hu : RefsUnique s.store)
    (hk : s.store.activeId ≠ id' → s.store.activeId = id → s.store.view.streaming = true → Open id s) :
    Live id (selectThread cfg id' false s) := by
  by_cases heq : s.store.activeId = id'
  · simp only [selectThread, if_pos heq, Bool.false_eq_true, if_false]
    exact h
  · simp only [selectThread, if_neg heq]
    constructor
    · intro t ht hid hs
      obtain ⟨u, hu', hid', hs'⟩ := flag_mem (frame_detach_selectThread id' (nextConv cfg s) s.store).threads ht
      exact (live_detach h hu (hk heq) u hu' (hid'.trans hid) (hs'.trans hs)).of_turns rfl
    · intro _ _
      right
      exact ⟨_, List.mem_append_right _ (List.mem_singleton_self _), rfl⟩

theorem streaming_selectResolved (id : ThreadId) (target : Option ℕ) (conv : Option Conversation) (s : Store) :
    (selectResolved id target conv s).view.streaming = true ↔
      ∃ t, target.bind (fun ref => lookup ref s) = some t ∧ t.isStreaming = true := by
  have hrestore (t : Option Thread) (v : View) :
      (restore t v).streaming = true ↔ ∃ u, t = some u ∧ u.isStreaming = true := by
    unfold restore
    cases t with
    | none => simp
    | some t =>
      dsimp only
      split
      · next hs => simp [hs]
      · next hs => simp [hs]
  unfold selectResolved
  dsimp only
  split
  · exact hrestore _ _
  · exact hrestore _ _

theorem live_conversation {id : ThreadId} {s : System} (h : Live id s) (hsound : Sound s) (k : ℕ)
    (answer : Option Conversation) (hk : Kept id s (.conversation k answer)) : Live id (conversation k answer s) := by
  unfold conversation
  split
  · exact h
  · next c hc =>
    split
    · exact h
    · next hp =>
      have hpending : c.pending = true := by simpa using hp
      have hf : Frame flag { s.store with viewOwner := c.id } (selectResolved c.id c.target answer s.store) :=
        frame_selectResolved ..
      have hmarks : ∀ t ∈ (selectResolved c.id c.target answer s.store).threads, t.id = id → t.isStreaming = true →
          Open id s := by
        intro t ht hid hs
        obtain ⟨u, hu, hid', hs'⟩ := flag_mem hf.threads ht
        exact h.marks u hu (hid'.trans hid) (hs'.trans hs)
      have hview : s.store.activeId = id → (selectResolved c.id c.target answer s.store).view.streaming = true →
          Open id s ∨ ∃ j c', j ≠ k ∧ s.selects[j]? = some c' ∧ c'.pending = true := by
        intro hid hs
        obtain ⟨t, ht, hmark⟩ := (streaming_selectResolved ..).mp hs
        obtain ⟨ref, htarget, hlookup⟩ := Option.bind_eq_some_iff.mp ht
        obtain ⟨u, hu, huref, huid⟩ := hsound.targets c (List.mem_of_getElem? hc) hpending ref htarget
        have hut : u = t := by
          have hfound := hsound.wellFormed.unique.lookup hu
          rw [huref] at hfound
          exact Option.some.inj (hfound.symm.trans hlookup)
        by_cases hcid : c.id = id
        · left
          exact h.marks u hu (huid.trans hcid) (hut ▸ hmark)
        · exact hk c hc hpending hid hcid u hu (huref ▸ htarget) (hut ▸ hmark)
      have hnext : Live id { s with
          selects := s.selects.set k { c with pending := false }
          store := selectResolved c.id c.target answer s.store } := by
        constructor
        · intro t ht hid hs
          exact (hmarks t ht hid hs).of_turns rfl
        · intro hid hs
          cases hview (hf.activeId.symm.trans hid) hs with
          | inl ho => exact Or.inl (ho.of_turns rfl)
          | inr hother =>
            obtain ⟨j, c', hne, hj, hp'⟩ := hother
            right
            refine ⟨c', List.mem_of_getElem? (i := j) ?_, hp'⟩
            rw [List.getElem?_set_ne (Ne.symm hne)]
            exact hj
      dsimp only
      split
      · exact ⟨hnext.marks, hnext.view⟩
      · exact hnext

/-- Threads loaded from localStorage are marked only if they were in memory. -/
theorem live_reload {id : ThreadId} {s : System} (h : Live id s) (hs : Stored s.store) (now : Text) :
    Live id (reload cfg now s) := by
  constructor
  · intro t ht hid hmark
    by_cases hne : savedThreads s.store = []
    · have hthreads : (reload cfg now s).store.threads =
          [newThread cfg s.store.nextRef (threadId 1) s.store.customer (cfg.genConvId s.convs.length) now] := by
        show (loadPersistedThreads cfg s.convs.length now s.store).1 = _
        simp only [loadPersistedThreads, if_pos hne]
      rw [hthreads, List.mem_singleton] at ht
      rw [ht] at hmark
      cases hmark
    · obtain ⟨u, hu, hid', hs'⟩ := flag_mem (loaded_flags cfg s.convs.length now hne) ht
      obtain ⟨v, hv, hid'', hs''⟩ := hs u hu (hs'.trans hmark)
      exact (h.marks v hv (hid''.trans (hid'.trans hid)) hs'').of_turns rfl
  · intro _ hview
    cases hview

/-! ### The steps that end a turn -/

theorem live_dispatchFailed {id : ThreadId} {s : System} (h : Live id s) (k : ℕ) (c : Send) (thrown : Bool) (error : Text)
    (hk : (c.handoff || c.lab) = true → Dropped [c.turn] id s (fun _ => False) True) :
    Live id (dispatchFailed cfg k c thrown error s) := by
  unfold dispatchFailed
  dsimp only
  split
  · next hends =>
    refine (hk hends).live (fun ho => ho.endTurn.of_turns rfl) ?_ rfl
    exact lowered_off (.of_eq rfl rfl rfl rfl rfl rfl rfl rfl) rfl
  · refine h.lowered ?_ (fun ho => ho.of_turns rfl) rfl
    exact lowered_of_view (.of_eq rfl rfl rfl rfl rfl rfl rfl rfl) fun hs => hs

/-- A chunk of turn `n` is received, from a session or a stream. -/
theorem live_ingestChunk {id : ThreadId} {s : System} (h : Live id s) (owner : ThreadId) (chunk : Chunk)
    (source : Option ℕ) (n : ℕ) (now : Text)
    (hk : chunk.terminal = true → Dropped [n] id s (clears chunk (resolveChunkTarget chunk source s.store))
      (silences chunk (resolveChunkTarget chunk source s.store))) :
    Live id { endIf chunk.terminal n s with store := ingestChunk owner chunk source now s.store } := by
  have hlower := lowered_ingestChunk owner chunk source now s.store
  cases hterm : chunk.terminal with
  | true => exact (hk hterm).live (fun ho => ho.endTurn.of_turns rfl) hlower rfl
  | false =>
    have hkeep : Lowered s.store (ingestChunk owner chunk source now s.store) (fun _ => False) False := by
      refine ⟨?_, fun hs => ⟨(hlower.view hs).1, fun hf => hf⟩, hlower.active⟩
      intro t ht hs
      obtain ⟨u, hu, hid, hs', -⟩ := hlower.marks t ht hs
      exact ⟨u, hu, hid, hs', fun hf => hf⟩
    exact h.lowered hkeep (fun ho => ho.of_turns rfl) rfl

/-- What the exit of session `i`, which is `x`, does before the handler looks at the view. -/
def exited (i : ℕ) (x : Session) (s : System) : System :=
  crashTurns (x.turn :: x.earlier) { s with sessions := s.sessions.set i { x with exited := true } }

theorem exit_eq {s : System} {i : ℕ} {x : Session} (hx : s.sessions[i]? = some x) (halive : ¬ (x.alive ∨ x.exited))
    (code : Text) (error : Option Text) (route : Bool) (now : Text) :
    exit cfg i code error route now s =
      if s.store.view.session = some i then
        if retries route s.store = true then
          sendViaHttp cfg x.turn { reopenTurn x.turn (exited i x s) with
            store := beginRetry now (exitActive (exitText code error) s.store) }
        else { exited i x s with store := exitActive (exitText code error) s.store }
      else
        match backgroundOf i s.store with
        | some t => { exited i x s with store := finishBackground t now s.store }
        | none => exited i x s := by
  unfold exit
  rw [hx]
  dsimp only
  rw [if_neg halive]
  rfl

theorem live_exit {id : ThreadId} {s : System} {i : ℕ} {x : Session} (hx : s.sessions[i]? = some x)
    (halive : ¬ (x.alive ∨ x.exited)) (code : Text) (error : Option Text) (route : Bool) (now : Text)
    (hk : Kept.Buried id x i route s) : Live id (exit cfg i code error route now s) := by
  have hcrash : OpenBeside (x.turn :: x.earlier) id s → Open id (exited i x s) := fun ho => ho.crashTurns.of_turns rfl
  rw [exit_eq cfg hx halive]
  unfold Kept.Buried at hk
  split
  · next hview =>
    rw [if_pos hview] at hk
    split
    · next hretry =>
      rw [if_pos hretry] at hk
      cases hk with
      | inl hown =>
        -- the turn that is sent again is one of the thread's own
        have hturn : (((exited i x s).turns[x.turn]?).map Turn.thread) = some id := by
          unfold exited
          rw [← List.getElem?_map, turns_crashTurns, List.getElem?_map]
          exact hown
        have hopen := open_reopenTurn hturn
        exact ⟨fun _ _ _ _ => hopen.of_turns rfl, fun _ _ => Or.inl (hopen.of_turns rfl)⟩
      | inr hother =>
        obtain ⟨hdrop, hactive⟩ := hother
        have hopen : OpenBeside (x.turn :: x.earlier) id s → Open id (reopenTurn x.turn (exited i x s)) :=
          fun ho => (hcrash ho).reopenTurn x.turn
        constructor
        · intro t ht hid hs
          cases hdrop with
          | inl ho => exact (hopen ho).of_turns rfl
          | inr hmarks => exact False.elim (hmarks.1 t ht hid hs)
        · intro hid _
          exact (hactive hid).imp (fun ho => (hopen ho).of_turns rfl) fun hw => hw
    · next hretry =>
      rw [if_neg hretry] at hk
      refine hk.live (fun ho => (hcrash ho).of_turns rfl) ?_ rfl
      exact lowered_off (.of_eq rfl rfl rfl rfl rfl rfl rfl rfl) rfl
  · next hview =>
    rw [if_neg hview] at hk
    cases hb : backgroundOf i s.store with
    | some t =>
      rw [hb] at hk
      exact hk.live (fun ho => (hcrash ho).of_turns rfl) (lowered_finishBackground t now s.store) rfl
    | none =>
      rw [hb] at hk
      exact hk.live hcrash (lowered_of_view (.refl _) fun hs => hs) rfl

theorem open_closeStream {id : ThreadId} {s : System} (h : Open id s) (j : Option ℕ) : Open id (closeStream j s) :=
  h.of_turns (turns_closeStream j s)

theorem live_startLocalCcTurn {id : ThreadId} {s : System} (h : Live id s) (turn : ℕ) (bridge : Bool)
    (hk : bridge = false → Dropped [turn] id s (fun _ => False) True) : Live id (startLocalCcTurn turn bridge s) := by
  unfold startLocalCcTurn
  cases bridge with
  | true =>
    refine h.lowered ?_ (fun ho => ho.of_turns rfl) rfl
    exact lowered_of_view (.of_eq rfl rfl rfl rfl rfl rfl rfl rfl) fun hs => hs
  | false =>
    refine (hk rfl).live (fun ho => ho.endTurn.of_turns rfl) ?_ rfl
    exact lowered_off (.of_eq rfl rfl rfl rfl rfl rfl rfl rfl) rfl

theorem live_line {id : ThreadId} {s : System} (h : Live id s) (j : ℕ) (chunk : Chunk) (bridge : Bool) (now : Text)
    (hk : Kept id s (.line j chunk bridge now)) : Live id (line j chunk bridge now s) := by
  unfold line
  split
  · exact h
  · next x hx =>
    split
    · exact h
    · next hopen =>
      have hk' := hk x hx hopen
      split
      · next hswitch =>
        rw [if_pos hswitch] at hk'
        have hturns := turns_closeStream s.store.sse { s with streams := s.streams.set j { x with switched := true } }
        have hselects := selects_closeStream s.store.sse { s with streams := s.streams.set j { x with switched := true } }
        dsimp only
        rw [frame_closeStream]
        apply live_startLocalCcTurn
        · refine h.lowered ?_ (fun ho => ho.of_turns hturns) hselects
          exact lowered_of_view (.of_eq rfl rfl rfl rfl rfl rfl rfl rfl) fun hs => hs
        · intro hb
          exact (hk' hb).of_eq hturns rfl rfl rfl hselects
      · next hswitch =>
        rw [if_neg hswitch] at hk'
        exact live_ingestChunk h _ chunk none x.turn now hk'

theorem live_httpError {id : ThreadId} {s : System} (h : Live id s) (j : ℕ) (message : Text)
    (hk : Kept id s (.httpError j message)) : Live id (httpError j message s) := by
  unfold httpError
  split
  · exact h
  · next x hx =>
    split
    · exact h
    · next hc =>
      refine (hk x hx (by simpa using hc)).live (fun ho => ?_) ?_ rfl
      · exact (OpenBeside.endTurn (s := { s with streams := s.streams.set j { x with closed := true } }) ho).of_turns rfl
      · exact lowered_off (.of_eq rfl rfl rfl rfl rfl rfl rfl rfl) rfl

theorem live_stopStreaming {id : ThreadId} {s : System} (h : Live id s) (hk : Kept id s .stopStreaming) :
    Live id (stopStreaming s) := by
  have hstore : (stopStreaming s).store = Chat.stopStreaming s.store := by
    unfold stopStreaming
    dsimp only
    rw [frame_closeStream]
  by_cases hactive : s.store.activeId = id
  · have hmarks := hk hactive
    constructor
    · intro t ht hid hs
      rw [hstore] at ht
      rw [hmarks t ht hid] at hs
      cases hs
    · intro _ hs
      rw [hstore] at hs
      cases hs
  · have hopen : Open id s → Open id (stopStreaming s) := by
      rintro ⟨t, ht, hid, hended⟩
      refine ⟨t, ?_, hid, hended⟩
      show t ∈ (closeStream s.store.sse s).turns.map _
      rw [turns_closeStream, frame_closeStream]
      refine List.mem_map.mpr ⟨t, ht, if_neg ?_⟩
      rw [hid]
      exact Ne.symm hactive
    refine h.lowered ?_ hopen (selects_closeStream _ _)
    rw [hstore]
    refine lowered_of_view ?_ ?_
    · exact .of_eq rfl rfl rfl rfl rfl rfl rfl rfl
    · intro hs
      cases hs

theorem streaming_beginTurn (content now : Text) (s : Store) : (beginTurn content now s).view.streaming = true := by
  unfold beginTurn
  rw [view_updateActive]

theorem live_sendViaLocalCc {id : ThreadId} {s : System} (h : Live id s) (turn : ℕ) (content : Content) (lab : Bool)
    (hk : Dropped [turn] id s (fun _ => False) True) : Live id (sendViaLocalCc cfg turn content lab s) := by
  unfold sendViaLocalCc
  dsimp only
  split
  · split
    · refine hk.live (fun ho => ?_) ?_ rfl
      · exact (OpenBeside.endTurn (s := { s with store := { s.store with gotCcDone := false } }) ho).of_turns rfl
      · exact lowered_off (.of_eq rfl rfl rfl rfl rfl rfl rfl rfl) rfl
    · refine h.lowered ?_ (fun ho => ho.of_turns rfl) rfl
      exact lowered_of_view (.of_eq rfl rfl rfl rfl rfl rfl rfl rfl) fun hs => hs
  · next t _ =>
    refine h.lowered ?_ (fun ho => ho.of_turns rfl) rfl
    have hf : Frame flag { s.store with gotCcDone := false } (ensureConvId t (nextConv cfg s) { s.store with gotCcDone := false }).2 :=
      frame_ensureConvId (Or.inr fun _ _ => rfl) _ _
    have hbase : Frame flag s.store { s.store with gotCcDone := false } := .of_eq rfl rfl rfl rfl rfl rfl rfl rfl
    apply lowered_of_view (hbase.trans hf).with_view
    intro hs
    have hview := view_ensureConvId t (nextConv cfg s) { s.store with gotCcDone := false }
    exact (congrArg View.streaming hview).symm.trans hs

theorem live_sendMessage {id : ThreadId} {s : System} (h : Live id s) (content : Text) (route lab : Bool) (now : Text) :
    Live id (sendMessage cfg content route lab now s) := by
  unfold sendMessage
  split
  · exact h
  · have hf : Frame flag s.store (beginTurn content now s.store) := frame_beginTurn content now s.store
    have hturns := turns_closeStream s.store.sse
      { s with turns := s.turns ++ [⟨s.store.activeId, false, false⟩], store := beginTurn content now s.store }
    have hselects := selects_closeStream s.store.sse
      { s with turns := s.turns ++ [⟨s.store.activeId, false, false⟩], store := beginTurn content now s.store }
    have hstore := frame_closeStream s.store.sse
      { s with turns := s.turns ++ [⟨s.store.activeId, false, false⟩], store := beginTurn content now s.store }
    generalize closeStream s.store.sse
      { s with turns := s.turns ++ [⟨s.store.activeId, false, false⟩], store := beginTurn content now s.store } = s₁
      at hturns hselects hstore ⊢
    have hold : Open id s → OpenBeside [s.turns.length] id s₁ := by
      intro ho
      obtain ⟨m, t, hm, hid, hended, -⟩ := openBeside_nil ho
      have hlt := (List.getElem?_eq_some_iff.mp hm).1
      refine ⟨m, t, ?_, hid, hended, ?_⟩
      · rw [hturns]
        exact (List.getElem?_append_left hlt).trans hm
      · rw [List.mem_singleton]
        exact Nat.ne_of_lt hlt
    have hmarks : ∀ t ∈ s₁.store.threads, t.id = id → t.isStreaming = true → Open id s := by
      intro t ht hid hs
      rw [hstore] at ht
      obtain ⟨u, hu, hid', hs'⟩ := flag_mem hf.threads ht
      exact h.marks u hu (hid'.trans hid) (hs'.trans hs)
    have hnew : Live id s₁ := by
      constructor
      · intro t ht hid hs
        exact (hold (hmarks t ht hid hs)).opened
      · intro hid _
        left
        rw [hstore] at hid
        refine ⟨⟨s.store.activeId, false, false⟩, ?_, hf.activeId.symm.trans hid, rfl⟩
        rw [hturns]
        exact List.mem_append_right _ (List.mem_singleton_self _)
    dsimp only
    split
    · apply live_sendViaLocalCc cfg hnew
      by_cases ho : Open id s
      · exact Or.inl (hold ho)
      · right
        refine ⟨fun t ht hid hs => absurd (hmarks t ht hid hs) ho, fun _ _ => Or.inl trivial⟩
    · refine hnew.lowered ?_ (fun ho => ho.of_turns rfl) rfl
      exact lowered_of_view (.of_eq rfl rfl rfl rfl rfl rfl rfl rfl) fun hs => hs

theorem streaming_sessionKnown (i : ℕ) (c : Send) (s : Store) :
    (sessionKnown i c s).view.streaming = s.view.streaming := by
  unfold sessionKnown
  dsimp only
  split
  · rfl
  · split
    · rfl
    · rfl

/-- A step that the thread allows keeps it from being marked without an open turn. -/
theorem live_step {id : ThreadId} {s : System} (h : Live id s) (hsound : Sound s) {a : Action} (ha : a.streams = true)
    (hk : Kept id s a) : Live id (step cfg s a) := by
  have hu := hsound.wellFormed.unique
  cases a with
  | historyAnswer | deleteAnswer | setCustomer | userChanged => cases ha
  | createThread now => exact live_createThread cfg h hu hk now
  | selectThread id' => exact live_selectThread cfg h hu hk
  | conversation k answer => exact live_conversation h hsound k answer hk
  | sendMessage content route lab now => exact live_sendMessage cfg h content route lab now
  | startHandled k refusal =>
    have hselects := selects_step cfg (s := s) (a := .startHandled k refusal) rfl
    apply h.of_eq (frame_startHandled k refusal s) _ hselects
    unfold startHandled
    repeat' split
    all_goals rfl
  | startAnswer k =>
    unfold step startAnswer
    dsimp only
    split
    · exact h
    · next c hc =>
      split
      · refine h.lowered ?_ (fun ho => ho.of_turns rfl) rfl
        apply lowered_of_view (frame_sessionKnown _ c s.store)
        intro hs
        rwa [streaming_sessionKnown] at hs
      · next error hpc => exact live_dispatchFailed cfg h k c false error (hk c error hc hpc)
      · exact h
  | startThrows k error =>
    unfold step startThrows
    dsimp only
    split
    · exact h
    · next c hc =>
      split
      · exact h
      · exact h
      · next hs hf => exact live_dispatchFailed cfg h k c true error (hk c hc hs hf)
  | sendAnswer k thrown =>
    unfold step sendAnswer
    dsimp only
    split
    · exact h
    · next c hc =>
      split
      · exact h
      · next hpc =>
        cases thrown with
        | some error => exact live_dispatchFailed cfg h k c true error (hk c hc (not_not.mp hpc) (by simp))
        | none => exact h.of_eq rfl rfl rfl
  | die i => exact h.of_eq rfl rfl rfl
  | event i n chunk now =>
    unfold step event
    dsimp only
    split
    · exact h
    · next x hx =>
      split
      · exact h
      · next hx' => exact live_ingestChunk h _ chunk (some i) n now (hk x hx hx')
  | exit i code error route now =>
    cases hx : s.sessions[i]? with
    | none =>
      unfold step exit
      dsimp only
      rw [hx]
      exact h
    | some x =>
      by_cases halive : x.alive ∨ x.exited
      · unfold step exit
        dsimp only
        rw [hx]
        dsimp only
        rw [if_pos halive]
        exact h
      · exact live_exit cfg hx halive code error route now (hk x hx halive)
  | headers j named =>
    unfold step headers
    dsimp only
    split
    · exact h
    · split
      · exact h
      · split
        · refine h.lowered ?_ (fun ho => ho.of_turns rfl) rfl
          exact lowered_of_view (Frame.refl _).with_view fun hs => hs
        · exact h.of_eq rfl rfl rfl
  | line j chunk bridge now => exact live_line h j chunk bridge now hk
  | httpError j message => exact live_httpError h j message hk
  | stopStreaming => exact live_stopStreaming h hk
  | historyAsk => exact h.of_eq rfl rfl rfl
  | deleteThread id' =>
    unfold step deleteThread
    dsimp only
    split
    · exact h
    · exact h.of_eq rfl rfl rfl
  | reload now => exact live_reload cfg h hsound.stored now

theorem sound_init (customer now : Text) : Sound (init cfg customer ∅ now) := by
  refine ⟨wellFormed_init cfg customer ∅ now, ?_, ?_⟩
  · intro t ht
    cases ht
  · intro c hc
    cases hc

theorem live_init (id : ThreadId) (customer now : Text) : Live id (init cfg customer ∅ now) := by
  constructor
  · intro t ht _ hs
    rw [List.mem_singleton.mp ht] at hs
    cases hs
  · intro _ hs
    cases hs

theorem sound_run {s : System} (h : Sound s) {as : List Action} (has : ∀ a ∈ as, a.streams = true) :
    Sound ((machine cfg).run s as) := by
  induction as generalizing s with
  | nil => exact h
  | cons a as ih =>
    apply ih (sound_step cfg h (has a List.mem_cons_self))
    intro b hb
    exact has b (List.mem_cons_of_mem _ hb)

theorem live_run {id : ThreadId} {s : System} (h : Live id s) (hsound : Sound s) {as : List Action}
    (has : ∀ a ∈ as, a.streams = true) (hk : (machine cfg).Along (Kept id) s as) : Live id ((machine cfg).run s as) := by
  induction as generalizing s with
  | nil => exact h
  | cons a as ih =>
    have ha := has a List.mem_cons_self
    apply ih (live_step cfg h hsound ha hk.1) (sound_step cfg hsound ha)
    · intro b hb
      exact has b (List.mem_cons_of_mem _ hb)
    · exact hk.2

/-! ### At rest -/

/-- No call of `selectThread` or `sendMessage` is in the middle of an await. -/
def AtRest (s : System) : Prop := Idle s ∧ ∀ c ∈ s.sends, c.pc = .finished

/-- The thread is shown or marked as streaming only while it has an open turn, and takes
a new message when it has none. -/
structure Honest (id : ThreadId) (s : System) : Prop where
  view : s.store.activeId = id → s.store.view.streaming = true → Open id s
  mark : ∀ t ∈ s.store.threads, t.id = id → t.isStreaming = true → Open id s
  accepts : s.store.activeId = id → ¬ Open id s → ∀ content route lab now,
    (step cfg s (.sendMessage content route lab now)).turns.map Turn.thread = s.turns.map Turn.thread ++ [id]

theorem Live.honest {id : ThreadId} {s : System} (h : Live id s) (hi : Idle s) : Honest cfg id s := by
  have hview : s.store.activeId = id → s.store.view.streaming = true → Open id s := by
    intro hid hs
    apply (h.view hid hs).resolve_right
    rintro ⟨c, hc, hp⟩
    rw [hi c hc] at hp
    cases hp
  refine ⟨hview, h.marks, ?_⟩
  intro hid hnot content route lab now
  have hoff : s.store.view.streaming = false := by
    rw [Bool.eq_false_iff]
    intro hs
    exact hnot (hview hid hs)
  rw [← hid]
  exact turns_sendMessage_idle cfg content route lab now hoff

/-- From the first load on, a thread that every step keeps is honest whenever the store is
at rest. -/
theorem streaming_only_while_open (id : ThreadId) (customer now : Text) (as : List Action)
    (has : ∀ a ∈ as, a.streams = true) (hk : (machine cfg).Along (Kept id) (init cfg customer ∅ now) as)
    (hrest : AtRest ((machine cfg).run (init cfg customer ∅ now) as)) :
    Honest cfg id ((machine cfg).run (init cfg customer ∅ now) as) :=
  (live_run cfg (live_init cfg id customer now) (sound_init cfg customer now) has hk).honest cfg hrest.1

/-- A message, answered by the local agent, whose done chunk ends its turn. -/
theorem streaming_only_while_open_done :
    Honest .plain (threadId 1) ((machine .plain).run (init .plain [] ∅ [])
      [.sendMessage "hi".toList true false [], .startHandled 0 none, .startAnswer 0, .sendAnswer 0 none,
        .event 0 0 { Chunk.empty with done := true } []]) := by
  refine streaming_only_while_open .plain (threadId 1) [] [] _ (by decide)
    ⟨trivial, trivial, ?_, ?_, ?_, trivial⟩ ⟨by unfold Idle; decide +kernel, by decide +kernel⟩
  · intro c error hc hpc
    have hstarted : c.pc = .started 0 := by
      have hsend := Option.some.inj hc
      rw [← hsend]
      rfl
    rw [hpc] at hstarted
    cases hstarted
  · intro c hc hpc hthrown
    exact absurd rfl hthrown
  · intro x hx _ _
    right
    have hoff : ∀ t ∈ ((machine .plain).run (init .plain [] ∅ [])
        [.sendMessage "hi".toList true false [], .startHandled 0 none, .startAnswer 0, .sendAnswer 0 none]).store.threads,
        t.isStreaming = false := by
      decide +kernel
    refine ⟨?_, fun _ _ => Or.inl rfl⟩
    intro t ht _ hs
    have hfalse := hoff t ht
    rw [hs] at hfalse
    cases hfalse

/-- The thread is left and selected again while it streams, and then its turn is done: the
mark stays, and after the next switch it takes no message any more. -/
theorem finished_thread_blocked :
    let done : Chunk := { Chunk.empty with done := true }
    let s := (machine .plain).run (init .plain [] ∅ [])
      [.sendMessage "hi".toList true false [], .startHandled 0 none, .startAnswer 0, .sendAnswer 0 none,
        .createThread [], .selectThread (threadId 1), .conversation 0 none, .event 0 0 done []]
    let s' := (machine .plain).run s
      [.selectThread (threadId 2), .conversation 1 none, .selectThread (threadId 1), .conversation 2 none]
    AtRest s ∧ ¬ Honest .plain (threadId 1) s ∧ AtRest s' ∧ s'.store.activeId = threadId 1 ∧ ¬ Open (threadId 1) s' ∧
      s'.store.view.streaming = true ∧ (step .plain s' (.sendMessage "again".toList true false [])).turns = s'.turns := by
  intro done s s'
  have hopen : ¬ Open (threadId 1) s := by
    unfold Open
    decide +kernel
  have hopen' : ¬ Open (threadId 1) s' := by
    unfold Open
    decide +kernel
  have hrest : AtRest s := ⟨by unfold Idle; decide +kernel, by decide +kernel⟩
  have hrest' : AtRest s' := ⟨by unfold Idle; decide +kernel, by decide +kernel⟩
  refine ⟨hrest, ?_, hrest', by decide +kernel, hopen', by decide +kernel, by decide +kernel⟩
  intro h
  have hmarked : ∃ t ∈ s.store.threads, t.id = threadId 1 ∧ t.isStreaming = true := by decide +kernel
  obtain ⟨t, ht, hid, hs⟩ := hmarked
  exact hopen (h.mark t ht hid hs)

end System

end AgentWorkflow.Desktop.Chat
