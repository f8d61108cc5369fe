import AgentWorkflow.Desktop.ChatFrames

/-!
# What the steps of the chat system leave as it is

All steps but a few neither change the list of threads nor the active one, and none
makes two objects the same.
-/

namespace AgentWorkflow.Desktop.Chat
open AgentWorkflow.Lib AgentWorkflow.Lib.Calendar

namespace System
variable (cfg : Config)

section Steps
variable {β : Type*} {g : Thread → β} [Steady g]

theorem frame_closeStream (j : Option ℕ) (s : System) : (closeStream j s).store = s.store := by
  unfold closeStream
  cases j with
  | none => rfl
  | some j => rfl

theorem frame_endIf (ends : Bool) (n : ℕ) (s : System) : (endIf ends n s).store = s.store := by
  unfold endIf
  split
  · rfl
  · rfl

omit [Steady g] in
theorem frame_sendViaHttp (turn : ℕ) (s : System) : Frame g s.store (sendViaHttp cfg turn s).store :=
  .of_eq rfl rfl rfl rfl rfl rfl rfl rfl

theorem frame_sendViaLocalCc (turn : ℕ) (content : Content) (lab : Bool) {s : System}
    (hset : ∀ t ∈ s.store.threads, t.id = s.store.activeId → Settled g t) :
    Frame g s.store (sendViaLocalCc cfg turn content lab s).store := by
  unfold sendViaLocalCc
  dsimp only
  split
  · split
    · exact .of_eq rfl rfl rfl rfl rfl rfl rfl rfl
    · exact .of_eq rfl rfl rfl rfl rfl rfl rfl rfl
  · next t ha =>
    obtain ⟨ht, hid⟩ := activeThread_some ha
    apply Frame.with_view
    apply Frame.trans _ (frame_ensureConvId (hset t ht hid) _ _)
    exact .of_eq rfl rfl rfl rfl rfl rfl rfl rfl

theorem frame_sendMessage (content : Text) (route lab : Bool) (now : Text) {s : System}
    (hset : ∀ t ∈ s.store.threads, t.id = s.store.activeId → Settled g t) :
    Frame g s.store (sendMessage cfg content route lab now s).store := by
  unfold sendMessage
  dsimp only
  split
  · exact .refl _
  · have hbegin : Frame g s.store (beginTurn content now s.store) := frame_beginTurn content now s.store
    split
    · refine Frame.trans ?_ (frame_sendViaLocalCc cfg _ _ _ ?_)
      · rw [frame_closeStream]
        exact hbegin
      · rw [frame_closeStream]
        have hactive := (frame_beginTurn (g := key) content now s.store).activeId
        intro t ht hid
        exact settled_frame (frame_beginTurn content now s.store) hset t ht (hid.trans hactive)
    · refine Frame.trans ?_ (frame_sendViaHttp cfg _ _)
      rw [frame_closeStream]
      exact hbegin

omit [Steady g] in
theorem frame_dispatchFailed (k : ℕ) (c : Send) (thrown : Bool) (error : Text) (s : System) :
    Frame g s.store (dispatchFailed cfg k c thrown error s).store := by
  unfold dispatchFailed
  dsimp only
  split
  · exact .of_eq rfl rfl rfl rfl rfl rfl rfl rfl
  · exact .of_eq rfl rfl rfl rfl rfl rfl rfl rfl

theorem frame_startHandled (k : ℕ) (refusal : Option Text) (s : System) : (startHandled k refusal s).store = s.store := by
  unfold startHandled
  repeat' split
  all_goals rfl

omit [Steady g] in
theorem frame_startAnswer (k : ℕ) (s : System) : Frame g s.store (startAnswer cfg k s).store := by
  unfold startAnswer
  split
  · exact .refl _
  · split
    · exact frame_sessionKnown _ _ s.store
    · exact frame_dispatchFailed ..
    · exact .refl _

omit [Steady g] in
theorem frame_startThrows (k : ℕ) (error : Text) (s : System) : Frame g s.store (startThrows cfg k error s).store := by
  unfold startThrows
  split
  · exact .refl _
  · split
    · exact .refl _
    · exact .refl _
    · exact frame_dispatchFailed ..

omit [Steady g] in
theorem frame_sendAnswer (k : ℕ) (thrown : Option Text) (s : System) :
    Frame g s.store (sendAnswer cfg k thrown s).store := by
  unfold sendAnswer
  split
  · exact .refl _
  · split
    · exact .refl _
    · split
      · exact frame_dispatchFailed ..
      · exact .refl _

omit [Steady g] in
theorem frame_event [Blind g] (i n : ℕ) (chunk : Chunk) (now : Text) (s : System) :
    Frame g s.store (event i n chunk now s).store := by
  unfold event
  split
  · exact .refl _
  · split
    · exact .refl _
    · exact frame_ingestChunk ..

omit [Steady g] in
theorem frame_exit [Blind g] (i : ℕ) (code : Text) (error : Option Text) (route : Bool) (now : Text) (s : System) :
    Frame g s.store (exit cfg i code error route now s).store := by
  unfold exit
  split
  · exact .refl _
  · split
    · exact .refl _
    · dsimp only
      split
      · split
        · exact .of_eq rfl rfl rfl rfl rfl rfl rfl rfl
        · exact .of_eq rfl rfl rfl rfl rfl rfl rfl rfl
      · split
        · exact frame_finishBackground ..
        · exact .refl _

omit [Steady g] in
theorem frame_headers (j : ℕ) (named : Bool) (s : System) : Frame g s.store (headers cfg j named s).store := by
  unfold headers
  split
  · exact .refl _
  · split
    · exact .refl _
    · dsimp only
      split
      · exact (Frame.refl _).with_view
      · exact .refl _

omit [Steady g] in
theorem frame_startLocalCcTurn (turn : ℕ) (bridge : Bool) (s : System) :
    Frame g s.store (startLocalCcTurn turn bridge s).store := by
  unfold startLocalCcTurn
  split
  · exact .of_eq rfl rfl rfl rfl rfl rfl rfl rfl
  · exact .of_eq rfl rfl rfl rfl rfl rfl rfl rfl

omit [Steady g] in
theorem frame_line [Blind g] (j : ℕ) (chunk : Chunk) (bridge : Bool) (now : Text) (s : System) :
    Frame g s.store (line j chunk bridge now s).store := by
  unfold line
  split
  · exact .refl _
  · split
    · exact .refl _
    · split
      · refine Frame.trans ?_ (frame_startLocalCcTurn _ _ _)
        dsimp only
        rw [frame_closeStream]
        exact .of_eq rfl rfl rfl rfl rfl rfl rfl rfl
      · exact frame_ingestChunk ..

omit [Steady g] in
theorem frame_httpError (j : ℕ) (message : Text) (s : System) : Frame g s.store (httpError j message s).store := by
  unfold httpError
  split
  · exact .refl _
  · split
    · exact .refl _
    · exact .of_eq rfl rfl rfl rfl rfl rfl rfl rfl

omit [Steady g] in
theorem frame_stopStreaming (s : System) : Frame g s.store (stopStreaming s).store := by
  unfold stopStreaming
  dsimp only
  rw [frame_closeStream]
  exact .of_eq rfl rfl rfl rfl rfl rfl rfl rfl

omit [Steady g] in
theorem frame_deleteThread (id : ThreadId) (s : System) : Frame g s.store (deleteThread id s).store := by
  unfold deleteThread
  split
  · exact .refl _
  · exact .refl _

end Steps

end System

/-- The steps that neither change the list of threads nor the active one. -/
def Action.quiet : Action → Bool
  | .createThread _ | .selectThread _ | .conversation _ _ | .historyAnswer _ _ | .deleteAnswer _ _ _
  | .setCustomer _ | .userChanged _ | .reload _ => false
  | _ => true

theorem System.frame_step {β : Type*} {g : Thread → β} [Blind g] (cfg : Config) {s : System} {a : Action}
    (h : a.quiet = true) (hset : ∀ t ∈ s.store.threads, t.id = s.store.activeId → Settled g t) :
    Frame g s.store (step cfg s a).store := by
  cases a with
  | createThread | selectThread | conversation | historyAnswer | deleteAnswer | setCustomer | userChanged | reload =>
    simp [Action.quiet] at h
  | sendMessage content route lab now => exact frame_sendMessage cfg content route lab now hset
  | startHandled k refusal =>
    rw [step, frame_startHandled]
    exact .refl _
  | startAnswer k => exact frame_startAnswer ..
  | startThrows k error => exact frame_startThrows ..
  | sendAnswer k thrown => exact frame_sendAnswer ..
  | die i => exact .refl _
  | event i n chunk now => exact frame_event ..
  | exit i code error route now => exact frame_exit ..
  | headers j named => exact frame_headers ..
  | line j chunk bridge now => exact frame_line ..
  | httpError j message => exact frame_httpError ..
  | stopStreaming => exact frame_stopStreaming ..
  | historyAsk => exact .refl _
  | deleteThread id => exact frame_deleteThread ..

theorem System.frame_step_ident (cfg : Config) {s : System} {a : Action} (h : a.quiet = true) :
    Frame ident s.store (step cfg s a).store :=
  frame_step cfg h fun t _ _ => settled_ident t

theorem System.wellFormed_selectThread (cfg : Config) (id : ThreadId) (persists : Bool) {s : System}
    (h : WellFormed s.store) : WellFormed (selectThread cfg id persists s).store := by
  unfold selectThread
  split
  · split
    · exact (Frame.persist _).wellFormed h
    · exact h
  · exact (frame_selectThread (fun t _ _ => settled_ident t) _).wellFormed ⟨h.unique, h.below⟩

theorem System.wellFormed_deleted (cfg : Config) (id : ThreadId) (idx : ℕ) (now : Text) {s : System}
    (h : WellFormed s.store) : WellFormed (deleted cfg id idx now s).store := by
  have hs : WellFormed (spliceThread idx s.store) := wellFormed_spliceThread h idx
  unfold deleted
  dsimp only
  split
  · split
    · exact (Frame.persist _).wellFormed (wellFormed_createThread hs cfg _ now)
    · exact wellFormed_selectThread cfg _ true hs
  · exact (Frame.persist _).wellFormed hs

theorem System.wellFormed_step (cfg : Config) (s : System) (a : Action) (h : WellFormed s.store) :
    WellFormed (step cfg s a).store := by
  by_cases hq : a.quiet = true
  · exact (frame_step_ident cfg hq).wellFormed h
  · cases a with
    | createThread now => exact wellFormed_createThread h cfg _ now
    | selectThread id => exact wellFormed_selectThread cfg id false h
    | conversation k answer =>
      unfold step conversation
      dsimp only
      split
      · exact h
      · split
        · exact h
        · next c _ _ =>
          have hr := (frame_selectResolved c.id c.target answer s.store).wellFormed ⟨h.unique, h.below⟩
          dsimp only
          split
          · exact (Frame.persist _).wellFormed hr
          · exact hr
    | historyAnswer k listing =>
      unfold step historyAnswer
      dsimp only
      split
      · exact h
      · split
        · exact h
        · exact wellFormed_fetchHistory h cfg _ listing
    | deleteAnswer k answer now =>
      unfold step deleteAnswer
      dsimp only
      split
      · exact h
      · split
        · exact h
        · cases answer with
          | failed => exact h
          | deleted => exact wellFormed_deleted cfg _ _ now h
          | notFound => exact wellFormed_deleted cfg _ _ now h
    | setCustomer customer => exact ⟨h.unique, h.below⟩
    | userChanged now =>
      unfold step userChanged
      dsimp only
      rw [frame_closeStream]
      apply wellFormed_adoptThreads (s := Chat.stopStreaming s.store) ⟨h.unique, h.below⟩
      exact loaded_refs ..
    | reload now =>
      exact wellFormed_reload h (loaded_refs ..)
    | _ => exact absurd rfl hq

theorem System.wellFormed_init (cfg : Config) (customer : Text) (storage : Finmap fun _ : Text => List Thread)
    (now : Text) : WellFormed (init cfg customer storage now).store := by
  apply wellFormed_adoptThreads
  · exact ⟨List.nodup_nil, by simp⟩
  · exact loaded_refs ..

/-! ### The calls that wait -/

namespace System
variable (cfg : Config)

@[simp] theorem selects_closeStream (j : Option ℕ) (s : System) : (closeStream j s).selects = s.selects := by
  unfold closeStream
  cases j with
  | none => rfl
  | some j => rfl

@[simp] theorem selects_endIf (ends : Bool) (n : ℕ) (s : System) : (endIf ends n s).selects = s.selects := by
  unfold endIf
  split
  · rfl
  · rfl

theorem selects_sendViaLocalCc (turn : ℕ) (content : Content) (lab : Bool) (s : System) :
    (sendViaLocalCc cfg turn content lab s).selects = s.selects := by
  unfold sendViaLocalCc
  dsimp only
  split
  · split
    · rfl
    · rfl
  · rfl

theorem selects_sendMessage (content : Text) (route lab : Bool) (now : Text) (s : System) :
    (sendMessage cfg content route lab now s).selects = s.selects := by
  unfold sendMessage
  split
  · rfl
  · dsimp only
    split
    · rw [selects_sendViaLocalCc, selects_closeStream]
    · exact selects_closeStream _ _

theorem selects_dispatchFailed (k : ℕ) (c : Send) (thrown : Bool) (error : Text) (s : System) :
    (dispatchFailed cfg k c thrown error s).selects = s.selects := by
  unfold dispatchFailed
  dsimp only
  split
  · rfl
  · rfl

theorem selects_exit (i : ℕ) (code : Text) (error : Option Text) (route : Bool) (now : Text) (s : System) :
    (exit cfg i code error route now s).selects = s.selects := by
  unfold exit
  split
  · rfl
  · split
    · rfl
    · dsimp only
      split
      · split
        · rfl
        · rfl
      · split
        · rfl
        · rfl

theorem selects_line (j : ℕ) (chunk : Chunk) (bridge : Bool) (now : Text) (s : System) :
    (line j chunk bridge now s).selects = s.selects := by
  unfold line startLocalCcTurn
  split
  · rfl
  · split
    · rfl
    · split
      · dsimp only
        split
        · exact selects_closeStream _ _
        · exact selects_closeStream _ _
      · exact selects_endIf _ _ s

theorem selects_step {s : System} {a : Action} (h : a.quiet = true) : (step cfg s a).selects = s.selects := by
  cases a with
  | createThread | selectThread | conversation | historyAnswer | deleteAnswer | setCustomer | userChanged | reload =>
    simp [Action.quiet] at h
  | sendMessage content route lab now => exact selects_sendMessage cfg content route lab now s
  | startHandled k refusal =>
    unfold step startHandled
    dsimp only
    repeat' split
    all_goals rfl
  | startAnswer k =>
    unfold step startAnswer
    dsimp only
    split
    · rfl
    · split
      · rfl
      · exact selects_dispatchFailed ..
      · rfl
  | startThrows k error =>
    unfold step startThrows
    dsimp only
    split
    · rfl
    · split
      · rfl
      · rfl
      · exact selects_dispatchFailed ..
  | sendAnswer k thrown =>
    unfold step sendAnswer
    dsimp only
    split
    · rfl
    · split
      · rfl
      · split
        · exact selects_dispatchFailed ..
        · rfl
  | die i => rfl
  | event i n chunk now =>
    unfold step event
    dsimp only
    split
    · rfl
    · split
      · rfl
      · exact selects_endIf _ _ s
  | exit i code error route now => exact selects_exit ..
  | headers j named =>
    unfold step headers
    dsimp only
    repeat' split
    all_goals rfl
  | line j chunk bridge now => exact selects_line ..
  | httpError j message =>
    unfold step httpError
    dsimp only
    repeat' split
    all_goals rfl
  | stopStreaming => exact selects_closeStream _ _
  | historyAsk => rfl
  | deleteThread id =>
    unfold step deleteThread
    dsimp only
    repeat' split
    all_goals rfl

end System

/-! ### Turns and conversations -/

namespace System
variable (cfg : Config)

/-- The same turns, and the same owners of the conversation ids made so far. -/
structure Older (s s' : System) : Prop where
  turns : s'.turns.map Turn.thread = s.turns.map Turn.thread
  convs : s.convs <+: s'.convs

theorem Older.refl (s : System) : Older s s := ⟨rfl, List.prefix_rfl⟩

theorem Older.trans {a b c : System} (h : Older a b) (h' : Older b c) : Older a c :=
  ⟨h'.turns.trans h.turns, h.convs.trans h'.convs⟩

theorem turns_endTurn (n : ℕ) (s : System) : (endTurn n s).turns.map Turn.thread = s.turns.map Turn.thread := by
  apply List.ext_getElem
  · simp [endTurn]
  · intro i h h'
    simp only [endTurn, List.getElem_map, List.getElem_modify]
    split
    · rfl
    · rfl

theorem turns_reopenTurn (n : ℕ) (s : System) : (reopenTurn n s).turns.map Turn.thread = s.turns.map Turn.thread := by
  apply List.ext_getElem
  · simp [reopenTurn]
  · intro i h h'
    simp only [reopenTurn, List.getElem_map, List.getElem_modify]
    split
    · rfl
    · rfl

theorem turns_endTurnsOf (id : ThreadId) (s : System) :
    (endTurnsOf id s).turns.map Turn.thread = s.turns.map Turn.thread := by
  unfold endTurnsOf
  rw [List.map_map]
  apply List.map_congr_left
  intro t _
  dsimp only [Function.comp_apply]
  split
  · rfl
  · rfl

theorem turns_crashTurns (ns : List ℕ) (s : System) : (crashTurns ns s).turns.map Turn.thread = s.turns.map Turn.thread := by
  apply List.ext_getElem
  · simp [crashTurns]
  · intro i h h'
    simp only [crashTurns, List.getElem_map, List.getElem_mapIdx]
    split
    · rfl
    · rfl

theorem turns_closeStream (j : Option ℕ) (s : System) : (closeStream j s).turns = s.turns := by
  unfold closeStream
  cases j with
  | none => rfl
  | some j => rfl

theorem convs_closeStream (j : Option ℕ) (s : System) : (closeStream j s).convs = s.convs := by
  unfold closeStream
  cases j with
  | none => rfl
  | some j => rfl

theorem older_of_eq {s s' : System} (ht : s'.turns.map Turn.thread = s.turns.map Turn.thread) (hc : s'.convs = s.convs) :
    Older s s' :=
  ⟨ht, by rw [hc]⟩

theorem older_selectThread (id : ThreadId) (persists : Bool) (s : System) : Older s (selectThread cfg id persists s) := by
  unfold selectThread
  split
  · split
    · exact ⟨rfl, List.prefix_rfl⟩
    · exact .refl s
  · exact ⟨rfl, List.prefix_append _ _⟩

theorem older_endIf (ends : Bool) (n : ℕ) (s : System) : Older s (endIf ends n s) := by
  unfold endIf
  split
  · exact older_of_eq (turns_endTurn n s) rfl
  · exact .refl s

theorem older_dispatchFailed (k : ℕ) (c : Send) (thrown : Bool) (error : Text) (s : System) :
    Older s (dispatchFailed cfg k c thrown error s) := by
  unfold dispatchFailed
  dsimp only
  split
  · exact older_of_eq (turns_endTurn _ _) rfl
  · exact ⟨rfl, List.prefix_rfl⟩

theorem older_sendViaLocalCc (turn : ℕ) (content : Content) (lab : Bool) (s : System) :
    Older s (sendViaLocalCc cfg turn content lab s) := by
  unfold sendViaLocalCc
  dsimp only
  split
  · split
    · exact older_of_eq (turns_endTurn _ _) rfl
    · exact ⟨rfl, List.prefix_rfl⟩
  · exact ⟨rfl, List.prefix_append _ _⟩

theorem turns_sendMessage_idle (content : Text) (route lab : Bool) (now : Text) {s : System}
    (h : s.store.view.streaming = false) :
    (sendMessage cfg content route lab now s).turns.map Turn.thread = s.turns.map Turn.thread ++ [s.store.activeId] := by
  unfold sendMessage
  rw [h, if_neg Bool.false_ne_true]
  dsimp only
  split
  · rw [(older_sendViaLocalCc cfg _ _ _ _).turns, turns_closeStream]
    simp
  · show (closeStream _ _).turns.map Turn.thread = _
    rw [turns_closeStream]
    simp

/-- Only `sendMessage` makes a turn, for the active thread. -/
theorem turns_sendMessage (content : Text) (route lab : Bool) (now : Text) (s : System) :
    (sendMessage cfg content route lab now s).turns.map Turn.thread = s.turns.map Turn.thread ∨
      (sendMessage cfg content route lab now s).turns.map Turn.thread = s.turns.map Turn.thread ++ [s.store.activeId] := by
  cases h : s.store.view.streaming with
  | false => exact Or.inr (turns_sendMessage_idle cfg content route lab now h)
  | true =>
    left
    unfold sendMessage
    rw [h, if_pos rfl]

theorem convs_sendMessage (content : Text) (route lab : Bool) (now : Text) (s : System) :
    s.convs <+: (sendMessage cfg content route lab now s).convs := by
  unfold sendMessage
  dsimp only
  split
  · exact List.prefix_rfl
  · split
    · have h := (older_sendViaLocalCc cfg s.turns.length (tag s.store.activeId content) lab
        (closeStream s.store.sse { s with
          turns := s.turns ++ [⟨s.store.activeId, false, false⟩]
          store := beginTurn content now s.store })).convs
      rwa [convs_closeStream] at h
    · show s.convs <+: (closeStream _ _).convs
      rw [convs_closeStream]

theorem older_startLocalCcTurn (turn : ℕ) (bridge : Bool) (s : System) : Older s (startLocalCcTurn turn bridge s) := by
  unfold startLocalCcTurn
  split
  · exact ⟨rfl, List.prefix_rfl⟩
  · exact older_of_eq (turns_endTurn _ _) rfl

theorem older_startHandled (k : ℕ) (refusal : Option Text) (s : System) : Older s (startHandled k refusal s) := by
  unfold startHandled
  repeat' split
  all_goals exact ⟨rfl, List.prefix_rfl⟩

theorem older_exit (i : ℕ) (code : Text) (error : Option Text) (route : Bool) (now : Text) (s : System) :
    Older s (exit cfg i code error route now s) := by
  unfold exit
  split
  · exact .refl s
  · split
    · exact .refl s
    · dsimp only
      split
      · split
        · exact older_of_eq ((turns_reopenTurn _ _).trans (turns_crashTurns _ _)) rfl
        · exact older_of_eq (turns_crashTurns _ _) rfl
      · split
        · exact older_of_eq (turns_crashTurns _ _) rfl
        · exact older_of_eq (turns_crashTurns _ _) rfl

theorem older_line (j : ℕ) (chunk : Chunk) (bridge : Bool) (now : Text) (s : System) :
    Older s (line j chunk bridge now s) := by
  unfold line
  split
  · exact .refl s
  · next x _ =>
    split
    · exact .refl s
    · split
      · have hclose : Older s (closeStream s.store.sse { s with streams := s.streams.set j { x with switched := true } }) :=
          older_of_eq (by rw [turns_closeStream]) (by rw [convs_closeStream])
        have hstart := older_startLocalCcTurn x.turn bridge
          { closeStream s.store.sse { s with streams := s.streams.set j { x with switched := true } } with
            store := { (closeStream s.store.sse { s with streams := s.streams.set j { x with switched := true } }).store with
              sse := none
              view := { (closeStream s.store.sse { s with streams := s.streams.set j { x with switched := true } }).store.view with
                conv := (closeStream s.store.sse
                  { s with streams := s.streams.set j { x with switched := true } }).store.view.conv.or chunk.conversationId } } }
        exact hclose.trans ⟨hstart.turns, hstart.convs⟩
      · have h := older_endIf chunk.terminal x.turn s
        exact ⟨h.turns, h.convs⟩

theorem older_deleted (id : ThreadId) (idx : ℕ) (now : Text) (s : System) : Older s (deleted cfg id idx now s) := by
  unfold deleted
  dsimp only
  split
  · split
    · exact ⟨rfl, List.prefix_append _ _⟩
    · next t _ _ =>
      have h := older_selectThread cfg t.id true { s with store := spliceThread idx s.store }
      exact ⟨h.turns, h.convs⟩
  · exact ⟨rfl, List.prefix_rfl⟩

theorem older_conversation (k : ℕ) (answer : Option Conversation) (s : System) : Older s (conversation k answer s) := by
  unfold conversation
  repeat' split
  all_goals exact ⟨rfl, List.prefix_rfl⟩

theorem older_historyAnswer (k : ℕ) (listing : List Listed) (s : System) : Older s (historyAnswer cfg k listing s) := by
  unfold historyAnswer
  repeat' split
  all_goals exact ⟨rfl, List.prefix_rfl⟩

theorem older_step (s : System) {a : Action} (ha : ∀ content route lab now, a ≠ .sendMessage content route lab now) :
    Older s (step cfg s a) := by
  cases a with
  | createThread now => exact ⟨rfl, List.prefix_append _ _⟩
  | selectThread id => exact older_selectThread cfg id false s
  | sendMessage content route lab now => exact absurd rfl (ha content route lab now)
  | startHandled k refusal => exact older_startHandled k refusal s
  | exit i code error route now => exact older_exit cfg i code error route now s
  | line j chunk bridge now => exact older_line j chunk bridge now s
  | conversation k answer => exact older_conversation k answer s
  | historyAnswer k listing => exact older_historyAnswer cfg k listing s
  | startAnswer k =>
    unfold step startAnswer
    dsimp only
    split
    · exact .refl s
    · split
      · exact ⟨rfl, List.prefix_rfl⟩
      · exact older_dispatchFailed ..
      · exact .refl s
  | startThrows k error =>
    unfold step startThrows
    dsimp only
    split
    · exact .refl s
    · split
      · exact .refl s
      · exact .refl s
      · exact older_dispatchFailed ..
  | sendAnswer k thrown =>
    unfold step sendAnswer
    dsimp only
    split
    · exact .refl s
    · split
      · exact .refl s
      · split
        · exact older_dispatchFailed ..
        · exact ⟨rfl, List.prefix_rfl⟩
  | event i n chunk now =>
    unfold step event
    dsimp only
    split
    · exact .refl s
    · split
      · exact .refl s
      · have h := older_endIf chunk.terminal n s
        exact ⟨h.turns, h.convs⟩
  | headers j named =>
    unfold step headers
    dsimp only
    split
    · exact .refl s
    · split
      · exact .refl s
      · refine ⟨rfl, ?_⟩
        dsimp only
        split
        · exact List.prefix_append _ _
        · exact List.prefix_rfl
  | httpError j message =>
    unfold step httpError
    dsimp only
    split
    · exact .refl s
    · split
      · exact .refl s
      · exact older_of_eq (turns_endTurn _ _) rfl
  | stopStreaming =>
    apply older_of_eq
    · exact (turns_endTurnsOf _ _).trans (congrArg _ (turns_closeStream _ _))
    · exact convs_closeStream _ _
  | deleteThread id =>
    unfold step deleteThread
    dsimp only
    split
    · exact .refl s
    · exact ⟨rfl, List.prefix_rfl⟩
  | deleteAnswer k answer now =>
    unfold step deleteAnswer
    dsimp only
    split
    · exact .refl s
    · next c _ =>
      split
      · exact .refl s
      · have h := older_deleted cfg c.id c.idx now { s with deletes := s.deletes.set k { c with pending := false } }
        cases answer with
        | failed => exact ⟨rfl, List.prefix_rfl⟩
        | deleted => exact ⟨h.turns, h.convs⟩
        | notFound => exact ⟨h.turns, h.convs⟩
  | userChanged now =>
    constructor
    · show (endTurnsOf _ _).turns.map Turn.thread = _
      rw [turns_endTurnsOf, turns_closeStream]
    · show _ <+: (closeStream _ _).convs ++ _
      rw [convs_closeStream]
      exact List.prefix_append _ _
  | reload now => exact ⟨rfl, List.prefix_append _ _⟩
  | _ => exact ⟨rfl, List.prefix_rfl⟩

/-- A step makes at most one turn, for the active thread. -/
theorem turns_step (s : System) (a : Action) :
    (step cfg s a).turns.map Turn.thread = s.turns.map Turn.thread ∨
      (step cfg s a).turns.map Turn.thread = s.turns.map Turn.thread ++ [s.store.activeId] := by
  by_cases ha : ∃ content route lab now, a = .sendMessage content route lab now
  · obtain ⟨content, route, lab, now, rfl⟩ := ha
    exact turns_sendMessage cfg content route lab now s
  · left
    apply (older_step cfg s _).turns
    intro content route lab now heq
    exact ha ⟨content, route, lab, now, heq⟩

theorem convs_step (s : System) (a : Action) : s.convs <+: (step cfg s a).convs := by
  by_cases ha : ∃ content route lab now, a = .sendMessage content route lab now
  · obtain ⟨content, route, lab, now, rfl⟩ := ha
    exact convs_sendMessage cfg content route lab now s
  · apply (older_step cfg s _).convs
    intro content route lab now heq
    exact ha ⟨content, route, lab, now, heq⟩

end System

end AgentWorkflow.Desktop.Chat
