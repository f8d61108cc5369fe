import AgentWorkflow.Desktop.ChatDeltas
import AgentWorkflow.Desktop.Sse
import Mathlib.Data.List.DropRight

/-!
# The end of an HTTP turn

`createSSEStream` and the callbacks `_sendViaHttp` gives it, from the request to the last
turn of the reading loop, for the thread in view and with nothing else going on.
`chunkOf` reads the argument of the callback as a `ChatStreamChunk`. What was received is
recorded: the data lines handed to the callback and the text that never was.
-/

namespace AgentWorkflow.Desktop.Chat
open AgentWorkflow.Lib AgentWorkflow.Lib.Calendar

/-! ### The code -/

/-- What the server and the network do: the request fails (also by a status, a content
type or the handshake timeout), or there is a body, read until it ends or reading fails. -/
inductive Answer where
  | refused (message : Text)
  | body (conv : Option ConvId) (chunks : List Sse.Bytes) (failure : Option Text)

structure HttpTurn where
  store : Store
  -- the handle was closed
  closed : Bool
  -- a local session has the turn
  handed : Bool
  -- the error callback was called
  failed : Bool
  lines : List Chunk
  left : Sse.Text

def HttpTurn.start (s : Store) : HttpTurn := ⟨s, false, false, false, [], []⟩

def handsOver (c : Chunk) : Bool := decide (c.type = .modeSwitch) && c.toLocalCc

section
variable (chunkOf : Sse.Message → Chunk) (owner : ThreadId) (bridge : Bool) (now : Text)

/-- The answer to a `mode_switch`; without the desktop `bridge` the turn fails. -/
def pivot (c : Chunk) (t : HttpTurn) : HttpTurn :=
  let s := { t.store with sse := none, view := { t.store.view with conv := t.store.view.conv.or c.conversationId } }
  -- `sseHandle` is gone once the turn has ended: nothing is closed then
  let t := { t with closed := t.closed || t.store.sse.isSome }
  if bridge then { t with store := { s with gotCcDone := false }, handed := true }
  else { t with store := failTurn "cc_local_not_available: Desktop CC runtime unavailable".toList s }

def onMessage (t : HttpTurn) (m : Sse.Message) : HttpTurn :=
  let c := chunkOf m
  let t := { t with lines := t.lines ++ [c] }
  if handsOver c then pivot bridge c t else { t with store := ingestChunk owner c none now t.store }

def onError (message : Text) (t : HttpTurn) : HttpTurn :=
  if t.closed then t else { t with store := httpError message t.store, failed := true }

/-- The loop of `createSSEStream` and what follows it. -/
def readLoop (failure : Option Text) : List Sse.Bytes → Sse.Reader → HttpTurn → HttpTurn
  | [], r, t =>
    let t := { t with left := r.buffer }
    match failure with
    | none => t
    | some message => onError message t
  | value :: values, r, t =>
    if t.closed then { t with left := r.buffer }
    else match r.read value with
      | none => onError "sse_buffer_limit".toList { t with left := r.buffer ++ (r.decoder.decode value).1 }
      | some (calls, r') => readLoop failure values r' (calls.foldl (onMessage chunkOf owner bridge now) t)

def httpTurn (a : Answer) (s : Store) : HttpTurn :=
  match a with
  | .refused message => onError message (.start s)
  | .body conv chunks failure =>
    readLoop chunkOf owner bridge now failure chunks .start
      (.start { s with view := { s.view with conv := s.view.conv.or conv } })

end

/-! ### What lines are -/

inductive LineKind where
  | handover
  | report
  | status
  | reply
deriving DecidableEq

def Chunk.kind (c : Chunk) : LineKind :=
  if handsOver c then .handover
  else if (extractErrorChunk c).isSome then .report
  else if c.type = .ccStatus ∧ c.label ≠ [] then .status
  else .reply

/-- The text a line adds to the reply. -/
def Chunk.replyText (c : Chunk) : Text := if c.kind = .reply then c.text else []

/-- The turn is over, or handed over, after the line. -/
def Chunk.endsTurn (c : Chunk) : Bool :=
  decide (c.kind = .handover) || decide (c.kind = .report) || decide (c.kind = .reply) && c.finished

/-- The reply so far becomes a message. -/
def Chunk.closesReply (c : Chunk) : Bool :=
  decide (c.kind = .report) || decide (c.kind = .status) || decide (c.kind = .reply) && c.finished

/-! ### What one line does to the view -/

def contents (ms : List Message) : Content := ms.flatMap Message.content

/-- The view after a line: what was added to the messages and to the reply. -/
structure Received (owner : ThreadId) (c : Chunk) (s s' : Store) : Prop where
  messages : ∃ new, s'.view.messages = s.view.messages ++ new ∧
    visible (contents new) ++ visible s'.view.reply = visible s.view.reply ++ visible (tag owner c.replyText)
  streaming : s'.view.streaming = (s.view.streaming && !c.endsTurn)
  reply : visible s'.view.reply =
    if c.closesReply then [] else visible s.view.reply ++ visible (tag owner c.replyText)

theorem contents_singleton (role : Role) (c : Content) : contents [⟨role, c⟩] = c := by simp [contents]

theorem received_report {owner : ThreadId} {c : Chunk} (hc : c.kind = .report) (err : ErrorInfo) (s : Store) :
    Received owner c s (ingestError err s) := by
  have htext : visible (tag owner c.replyText) = [] := by simp [Chunk.replyText, hc, tag, visible]
  have hview : ∃ new, (ingestError err s).view.messages = s.view.messages ++ new ∧ contents new = s.view.reply ∧
      (ingestError err s).view.reply = [] := by
    unfold ingestError
    dsimp only
    split
    next hnil => exact ⟨[], (List.append_nil _).symm, hnil.symm, hnil⟩
    · exact ⟨[⟨.assistant, s.view.reply⟩], by simp [commitReply], contents_singleton _ _, by simp [commitReply]⟩
  have hstreaming : (ingestError err s).view.streaming = false := by
    unfold ingestError
    dsimp only
    split
    · rfl
    · simp [commitReply]
  obtain ⟨new, hmessages, hnew, hreply⟩ := hview
  refine ⟨⟨new, hmessages, ?_⟩, ?_, ?_⟩
  · rw [hnew, hreply, htext]
    rfl
  · rw [hstreaming]
    simp [Chunk.endsTurn, hc]
  · rw [hreply]
    simp [Chunk.closesReply, hc, visible]

theorem received_status {owner : ThreadId} {c : Chunk} (hc : c.kind = .status) (label : Text) (tool : Option Text)
    (s : Store) : Received owner c s (ingestStatus label tool s) := by
  have htext : visible (tag owner c.replyText) = [] := by simp [Chunk.replyText, hc, tag, visible]
  have hclose : c.closesReply = true := by simp [Chunk.closesReply, hc]
  have hend : c.endsTurn = false := by simp [Chunk.endsTurn, hc]
  by_cases htrim : trim s.view.reply = []
  · have hblank := visible_of_trim htrim
    refine ⟨⟨[], ?_, ?_⟩, ?_, ?_⟩
    · simp [ingestStatus, htrim]
    · simp [ingestStatus, htrim, htext, hblank, contents, visible_nil]
    · simp [ingestStatus, htrim, hend]
    · simp [ingestStatus, htrim, hclose, hblank]
  · refine ⟨⟨[⟨.assistant, s.view.reply⟩], ?_, ?_⟩, ?_, ?_⟩
    · simp [ingestStatus, htrim, commitReply]
    · simp [ingestStatus, htrim, commitReply, htext, contents_singleton, visible_nil]
    · simp [ingestStatus, htrim, commitReply, hend]
    · simp [ingestStatus, htrim, commitReply, hclose, visible_nil]

theorem view_finishActive (now : Text) (s : Store) :
    (finishActive now s).view.streaming = false ∧ (finishActive now s).view.reply = [] ∧
      ∃ new, (finishActive now s).view.messages = s.view.messages ++ new ∧
        visible (contents new) = visible s.view.reply := by
  by_cases htrim : trim s.view.reply = []
  · refine ⟨by simp [finishActive, htrim], by simp [finishActive, htrim], [], by simp [finishActive, htrim], ?_⟩
    rw [visible_of_trim htrim]
    rfl
  · refine ⟨by simp [finishActive, htrim], by simp [finishActive, htrim], _, finishActive_messages htrim, ?_⟩
    rw [contents_singleton]

theorem received_reply {owner : ThreadId} {c : Chunk} (hc : c.kind = .reply) (now : Text) (s s' : Store)
    (hs : s'.view.messages = s.view.messages) (hstream : s'.view.streaming = s.view.streaming)
    (hreply : s'.view.reply = s.view.reply ++ tag owner c.text) :
    Received owner c s (if c.finished then finishActive now s' else s') := by
  have htext : c.replyText = c.text := if_pos hc
  have hvisible : visible s'.view.reply = visible s.view.reply ++ visible (tag owner c.replyText) := by
    rw [hreply, visible_append, htext]
  cases hfin : c.finished with
  | false =>
    rw [if_neg Bool.false_ne_true]
    refine ⟨⟨[], by simp [hs], by simp [contents, visible_nil, hvisible]⟩, ?_, ?_⟩
    · simp [hstream, Chunk.endsTurn, hc, hfin]
    · simp [Chunk.closesReply, hc, hfin, hvisible]
  | true =>
    obtain ⟨hstop, hnil, new, hmessages, hnew⟩ := view_finishActive now s'
    rw [if_pos rfl]
    refine ⟨⟨new, by rw [hmessages, hs], ?_⟩, ?_, ?_⟩
    · rw [hnew, hnil, hvisible, visible_nil, List.append_nil]
    · simp [hstop, Chunk.endsTurn, hc, hfin]
    · simp [hnil, Chunk.closesReply, hc, hfin, visible_nil]

theorem received_ingestActive {owner : ThreadId} {c : Chunk} (hc : handsOver c = false) (now : Text) (s : Store) :
    Received owner c s (ingestActive owner c now s) := by
  unfold ingestActive
  cases herr : extractErrorChunk c with
  | some err => exact received_report (by simp [Chunk.kind, hc, herr]) err s
  | none =>
    dsimp only
    split
    next hstatus =>
      have hkind : c.kind = .status := by
        simp only [Chunk.kind, hc, herr]
        simp [hstatus]
      exact received_status hkind c.label c.tool s
    next hstatus =>
      have hkind : c.kind = .reply := by
        simp only [Chunk.kind, hc, herr]
        simp [hstatus]
      refine received_reply hkind now s _ ?_ ?_ ?_
      · rw [view_pinSession]
      · rw [view_pinSession]
      · rw [view_pinSession]

/-! ### Lines of the thread in view -/

def place (t : Thread) : ThreadId × Option ConvId := (t.id, t.bgConv)

/-- The line names no conversation of another thread. -/
def Apart (c : Chunk) (s : Store) : Prop :=
  ∀ conv, c.conversationId = some conv → ∀ p ∈ s.threads.map place, p.2 = some conv ∨ p.1 = conv → p.1 = s.activeId

theorem Apart.congr {c : Chunk} {s s' : Store} (h : Apart c s) (hplaces : s'.threads.map place = s.threads.map place)
    (hactive : s'.activeId = s.activeId) : Apart c s' := by
  intro conv hconv p hp hnamed
  rw [hplaces] at hp
  rw [hactive]
  exact h conv hconv p hp hnamed

theorem ingestChunk_apart {c : Chunk} {s : Store} (h : Apart c s) (owner : ThreadId) (now : Text) :
    ingestChunk owner c none now s = ingestActive owner c now s := by
  have htarget : resolveChunkTarget c none s = .active := by
    cases hconv : c.conversationId with
    | none => simp [resolveChunkTarget, hconv]
    | some conv =>
      have hfind : s.threads.find? (fun t => (decide (t.bgConv = some conv) || decide (t.id = conv)) &&
          decide (t.id ≠ s.activeId)) = none := by
        rw [List.find?_eq_none]
        intro t ht hnamed
        simp only [Bool.and_eq_true, Bool.or_eq_true, decide_eq_true_eq] at hnamed
        exact hnamed.2 (h conv hconv (place t) (List.mem_map_of_mem ht) hnamed.1)
      simp only [resolveChunkTarget, hconv, targetOfConv, hfind]
      split <;> rfl
  simp only [ingestChunk, htarget]

theorem places_persistBubble (conv : Option ConvId) (content : Content) (s : Store) :
    (persistBubble conv content s).threads = s.threads := by
  unfold persistBubble
  split
  · rfl
  · split <;> rfl

theorem places_pinSession (c : Chunk) (s : Store) : (pinSession c s).threads.map place = s.threads.map place := by
  unfold pinSession
  split
  · dsimp only
    split
    · rfl
    next t _ =>
      split
      · rfl
      · exact (map_update place t.ref (by intro u; rfl) s).1
  · rfl

theorem places_finishActive (now : Text) (s : Store) : (finishActive now s).threads.map place = s.threads.map place := by
  unfold finishActive
  dsimp only
  split
  · rfl
  · rw [places_persistBubble]
    exact map_updateActive place (by intro u; rfl) _

/-- No line moves a thread or its conversation. -/
theorem places_ingestActive (owner : ThreadId) (c : Chunk) (now : Text) (s : Store) :
    (ingestActive owner c now s).threads.map place = s.threads.map place ∧
      (ingestActive owner c now s).activeId = s.activeId := by
  refine ⟨?_, (frame_ingestActive (g := ident) owner c now s).activeId⟩
  unfold ingestActive
  split
  · unfold ingestError
    dsimp only
    split
    · rfl
    · exact congrArg (List.map place) (places_persistBubble ..)
  · split
    · unfold ingestStatus
      dsimp only
      split
      · rfl
      · exact congrArg (List.map place) (places_persistBubble ..)
    · dsimp only
      split
      · rw [places_finishActive, places_pinSession]
      · rw [places_pinSession]

/-! ### The whole reading -/

/-- Where a turn stands after the lines read so far. -/
structure Progress (owner : ThreadId) (s : Store) (t : HttpTurn) : Prop where
  places : t.store.threads.map place = s.threads.map place
  activeId : t.store.activeId = s.activeId
  failed : t.failed = false
  messages : ∃ new, t.store.view.messages = s.view.messages ++ new ∧
    visible (contents new) ++ visible t.store.view.reply = visible (tag owner (t.lines.flatMap Chunk.replyText))
  ended : (t.handed = true ∨ t.store.view.streaming = false) ↔ ∃ c ∈ t.lines, c.endsTurn = true
  reply : visible t.store.view.reply =
    visible (tag owner ((t.lines.rtakeWhile fun c => !c.closesReply).flatMap Chunk.replyText))

theorem contents_append (a b : List Message) : contents (a ++ b) = contents a ++ contents b := List.flatMap_append ..

theorem pivot_view (bridge : Bool) (c : Chunk) (t : HttpTurn) :
    (pivot bridge c t).store.view.messages = t.store.view.messages ∧
      (pivot bridge c t).store.view.reply = t.store.view.reply ∧
      ((pivot bridge c t).handed = true ∨ (pivot bridge c t).store.view.streaming = false) ∧
      (pivot bridge c t).store.threads = t.store.threads ∧ (pivot bridge c t).store.activeId = t.store.activeId ∧
      (pivot bridge c t).failed = t.failed ∧ (pivot bridge c t).lines = t.lines := by
  cases bridge with
  | true => exact ⟨rfl, rfl, Or.inl rfl, rfl, rfl, rfl, rfl⟩
  | false => exact ⟨rfl, rfl, Or.inr rfl, rfl, rfl, rfl, rfl⟩

section
variable (chunkOf : Sse.Message → Chunk) (owner : ThreadId) (bridge : Bool) (now : Text)

theorem lines_onMessage (t : HttpTurn) (m : Sse.Message) :
    (onMessage chunkOf owner bridge now t m).lines = t.lines ++ [chunkOf m] := by
  unfold onMessage
  dsimp only
  split
  · exact (pivot_view bridge _ _).2.2.2.2.2.2
  · rfl

/-- What one call of the callback does. -/
theorem Progress.onMessage {s : Store} {t : HttpTurn} (h : Progress owner s t) (m : Sse.Message)
    (hapart : Apart (chunkOf m) s) : Progress owner s (onMessage chunkOf owner bridge now t m) := by
  obtain ⟨new, hmessages, htext⟩ := h.messages
  have hlines := lines_onMessage chunkOf owner bridge now t m
  cases hc : handsOver (chunkOf m) with
  | true =>
    have hkind : (chunkOf m).kind = .handover := by simp [Chunk.kind, hc]
    have hreply : (chunkOf m).replyText = [] := by simp [Chunk.replyText, hkind]
    have hopen : (chunkOf m).closesReply = false := by simp [Chunk.closesReply, hkind]
    have hends : (chunkOf m).endsTurn = true := by simp [Chunk.endsTurn, hkind]
    have hpivot : Chat.onMessage chunkOf owner bridge now t m =
        pivot bridge (chunkOf m) { t with lines := t.lines ++ [chunkOf m] } := by
      simp only [Chat.onMessage, hc, if_true]
    obtain ⟨hm, hr, hstop, hthreads, hactive, hfailed, -⟩ :=
      pivot_view bridge (chunkOf m) { t with lines := t.lines ++ [chunkOf m] }
    rw [← hpivot] at hm hr hstop hthreads hactive hfailed
    refine ⟨?_, ?_, ?_, ⟨new, ?_, ?_⟩, ?_, ?_⟩
    · rw [hthreads]
      exact h.places
    · rw [hactive]
      exact h.activeId
    · rw [hfailed]
      exact h.failed
    · rw [hm]
      exact hmessages
    · rw [hr, hlines]
      simpa [hreply] using htext
    · rw [hlines]
      exact iff_of_true hstop ⟨chunkOf m, by simp, hends⟩
    · rw [hr, hlines, List.rtakeWhile_concat_pos _ _ _ (by simp [hopen])]
      simpa [hreply] using h.reply
  | false =>
    have hstep : Chat.onMessage chunkOf owner bridge now t m =
        { t with lines := t.lines ++ [chunkOf m], store := ingestActive owner (chunkOf m) now t.store } := by
      simp only [Chat.onMessage, hc, Bool.false_eq_true, if_false]
      rw [ingestChunk_apart (hapart.congr h.places h.activeId)]
    obtain ⟨hplaces, hactive⟩ := places_ingestActive owner (chunkOf m) now t.store
    obtain ⟨⟨more, hmore, hadd⟩, hstream, hview⟩ := @received_ingestActive owner _ hc now t.store
    rw [hstep]
    refine ⟨hplaces.trans h.places, hactive.trans h.activeId, h.failed, ⟨new ++ more, ?_, ?_⟩, ?_, ?_⟩
    · rw [hmore, hmessages, List.append_assoc]
    · rw [contents_append, visible_append, List.append_assoc, hadd, ← List.append_assoc, htext, ← visible_append,
        ← tag_append]
      simp
    · have hiff := h.ended
      simp only [hstream, Bool.and_eq_false_iff, Bool.not_eq_false', ← or_assoc, hiff]
      simp [or_and_right, exists_or]
    · dsimp only
      rw [hview]
      cases hclose : (chunkOf m).closesReply with
      | true =>
        rw [List.rtakeWhile_concat_neg _ _ _ (by simp [hclose])]
        rfl
      | false =>
        rw [List.rtakeWhile_concat_pos _ _ _ (by simp [hclose]), h.reply, if_neg Bool.false_ne_true, ← visible_append,
          ← tag_append]
        simp

theorem Progress.start {s : Store} (hstream : s.view.streaming = true) (hreply : s.view.reply = []) (conv : Option ConvId) :
    Progress owner s (.start { s with view := { s.view with conv := conv } }) := by
  refine ⟨rfl, rfl, rfl, ⟨[], by simp [HttpTurn.start], ?_⟩, ?_, ?_⟩
  · simp [HttpTurn.start, hreply, contents, visible, tag]
  · simp [HttpTurn.start, hstream]
  · simp [HttpTurn.start, hreply, visible, tag]

theorem Progress.foldl {s : Store} (calls : List Sse.Message) {t : HttpTurn} (h : Progress owner s t)
    (hapart : ∀ m ∈ calls, Apart (chunkOf m) s) :
    Progress owner s (calls.foldl (Chat.onMessage chunkOf owner bridge now) t) := by
  induction calls generalizing t with
  | nil => exact h
  | cons m calls ih =>
    obtain ⟨hm, hcalls⟩ := List.forall_mem_cons.mp hapart
    exact ih (h.onMessage chunkOf owner bridge now m hm) hcalls

theorem lines_foldl (calls : List Sse.Message) (t : HttpTurn) :
    (calls.foldl (onMessage chunkOf owner bridge now) t).lines = t.lines ++ calls.map chunkOf := by
  induction calls generalizing t with
  | nil => simp
  | cons m calls ih => rw [List.foldl_cons, ih, lines_onMessage, List.map_cons, List.append_assoc]; rfl

/-- How the reading ends: quietly, or with the error callback. -/
inductive Finished (owner : ThreadId) (s : Store) : HttpTurn → Prop
  | quiet (t : HttpTurn) (left : Sse.Text) (h : Progress owner s t) : Finished owner s { t with left := left }
  | error (t : HttpTurn) (left : Sse.Text) (message : Text) (h : Progress owner s t) :
    Finished owner s { t with left := left, store := httpError message t.store, failed := true }

theorem finished_onError {s : Store} {t : HttpTurn} (h : Progress owner s t) (left : Sse.Text) (message : Text) :
    Finished owner s (onError message { t with left := left }) := by
  unfold onError
  split
  · exact .quiet t left h
  · exact .error t left message h

theorem lines_onError (message : Text) (t : HttpTurn) : (onError message t).lines = t.lines := by
  unfold onError
  split <;> rfl

theorem lines_readLoop (failure : Option Text) (chunks : List Sse.Bytes) (r : Sse.Reader) (t : HttpTurn) :
    ∀ c ∈ t.lines, c ∈ (readLoop chunkOf owner bridge now failure chunks r t).lines := by
  induction chunks generalizing r t with
  | nil =>
    intro c hc
    cases failure with
    | none => exact hc
    | some message =>
      rw [readLoop, lines_onError]
      exact hc
  | cons value values ih =>
    intro c hc
    unfold readLoop
    split
    · exact hc
    · split
      · rw [lines_onError]
        exact hc
      next calls r' _ =>
        refine ih r' _ c ?_
        rw [lines_foldl]
        exact List.mem_append_left _ hc

/-- The loop read to its end, by induction on the chunks. -/
theorem finished_readLoop {s : Store} (failure : Option Text) (chunks : List Sse.Bytes) (r : Sse.Reader) {t : HttpTurn}
    (h : Progress owner s t)
    (hapart : ∀ c ∈ (readLoop chunkOf owner bridge now failure chunks r t).lines, Apart c s) :
    Finished owner s (readLoop chunkOf owner bridge now failure chunks r t) := by
  induction chunks generalizing r t with
  | nil =>
    cases failure with
    | none => exact .quiet t _ h
    | some message => exact finished_onError owner h _ message
  | cons value values ih =>
    unfold readLoop at hapart ⊢
    split
    · exact .quiet t _ h
    next hopen =>
      rw [if_neg hopen] at hapart
      cases hread : r.read value with
      | none => exact finished_onError owner h _ _
      | some p =>
        obtain ⟨calls, r'⟩ := p
        rw [hread] at hapart
        dsimp only at hapart ⊢
        refine ih r' (h.foldl chunkOf owner bridge now calls fun m hm => hapart _ ?_) hapart
        refine lines_readLoop chunkOf owner bridge now failure values r' _ _ ?_
        rw [lines_foldl]
        exact List.mem_append_right _ (List.mem_map_of_mem hm)

theorem finished_httpTurn {s : Store} (a : Answer) (hstream : s.view.streaming = true) (hreply : s.view.reply = [])
    (hapart : ∀ c ∈ (httpTurn chunkOf owner bridge now a s).lines, Apart c s) :
    Finished owner s (httpTurn chunkOf owner bridge now a s) := by
  cases a with
  | refused message =>
    exact finished_onError owner (Progress.start owner hstream hreply s.view.conv) [] message
  | body conv chunks failure =>
    exact finished_readLoop chunkOf owner bridge now failure chunks _
      (Progress.start owner hstream hreply (s.view.conv.or conv)) hapart

/-- The lines in the text that was received and never handed over. -/
def HttpTurn.unread (t : HttpTurn) : List Chunk :=
  ((t.left.splitOn Sse.newline).filterMap Sse.lineMessage).map chunkOf

def Chunk.blank (c : Chunk) : Bool := c.replyText.all isSpace

/-- The turn is over or a local session has it, and the text of all lines that were
received, a last one without its newline included, is in the messages. -/
structure Ends (s : Store) (t : HttpTurn) : Prop where
  stopped : t.handed = true ∨ t.store.view.streaming = false
  delivered : visible (contents (t.store.view.messages.drop s.view.messages.length)) =
    visible (tag owner ((t.lines ++ t.unread chunkOf).flatMap Chunk.replyText))

/-- Either the error callback was called, or some line ended the turn and no text came
after the last line that closes a reply; and no text stands in what was never read. -/
structure Orderly (t : HttpTurn) : Prop where
  ended : t.failed = true ∨ ∃ c ∈ t.lines, c.endsTurn = true
  tail : t.failed = true ∨ ∀ c ∈ t.lines.rtakeWhile (fun c => !c.closesReply), c.blank = true
  unread : ∀ c ∈ t.unread chunkOf, c.blank = true

theorem visible_tag_eq_nil (t : Text) : visible (tag owner t) = [] ↔ t.all isSpace = true := by
  simp [visible, tag]

theorem visible_lines_eq_nil (cs : List Chunk) :
    visible (tag owner (cs.flatMap Chunk.replyText)) = [] ↔ ∀ c ∈ cs, c.blank = true := by
  simp only [visible_tag_eq_nil, List.all_eq_true, List.mem_flatMap, Chunk.blank]
  constructor
  · intro h c hc g hg
    exact h g ⟨c, hc, hg⟩
  · rintro h g ⟨c, hc, hg⟩
    exact h c hc g hg

theorem view_httpError (message : Text) (s : Store) :
    (httpError message s).view.streaming = false ∧ ∃ new, (httpError message s).view.messages = s.view.messages ++ new ∧
      contents new = s.view.reply := by
  refine ⟨rfl, ?_⟩
  by_cases hreply : s.view.reply = []
  · exact ⟨[], by simp [httpError, failTurn, hreply], by rw [hreply]; rfl⟩
  · exact ⟨[⟨.assistant, s.view.reply⟩], by simp [httpError, failTurn, hreply], contents_singleton _ _⟩

/-- An HTTP turn ends with everything received in the messages exactly when the error
callback or a line of the stream ends it, and no text comes after that or stands unread. -/
theorem http_turn_ends_iff (a : Answer) (s : Store) (hstream : s.view.streaming = true) (hreply : s.view.reply = [])
    (hapart : ∀ c ∈ (httpTurn chunkOf owner bridge now a s).lines, Apart c s) :
    Ends chunkOf owner s (httpTurn chunkOf owner bridge now a s) ↔ Orderly chunkOf (httpTurn chunkOf owner bridge now a s) := by
  have hfinished := finished_httpTurn chunkOf owner bridge now a hstream hreply hapart
  generalize httpTurn chunkOf owner bridge now a s = t at hfinished
  cases hfinished with
  | quiet t left h =>
    obtain ⟨new, hmessages, htext⟩ := h.messages
    have htail := visible_lines_eq_nil owner (t.lines.rtakeWhile fun c => !c.closesReply)
    rw [← h.reply] at htail
    have hunread := visible_lines_eq_nil owner (HttpTurn.unread chunkOf { t with left := left })
    have hdelivered : visible (contents (t.store.view.messages.drop s.view.messages.length)) =
        visible (tag owner ((t.lines ++ HttpTurn.unread chunkOf { t with left := left }).flatMap Chunk.replyText)) ↔
        visible t.store.view.reply = [] ∧
          visible (tag owner ((HttpTurn.unread chunkOf { t with left := left }).flatMap Chunk.replyText)) = [] := by
      rw [hmessages, List.drop_left, List.flatMap_append, tag_append, visible_append, ← htext, List.append_assoc]
      simp
    constructor
    · intro hends
      obtain ⟨hnil, hrest⟩ := hdelivered.mp hends.delivered
      exact ⟨Or.inr (h.ended.mp hends.stopped), Or.inr (htail.mp hnil), hunread.mp hrest⟩
    · intro horderly
      have hfailed : ¬t.failed = true := by simp [h.failed]
      refine ⟨h.ended.mpr (horderly.ended.resolve_left hfailed), hdelivered.mpr ⟨?_, ?_⟩⟩
      · exact htail.mpr (horderly.tail.resolve_left hfailed)
      · exact hunread.mpr horderly.unread
  | error t left message h =>
    obtain ⟨new, hmessages, htext⟩ := h.messages
    obtain ⟨hstop, more, hmore, hnew⟩ := view_httpError message t.store
    have hunread := visible_lines_eq_nil owner
      (HttpTurn.unread chunkOf { t with left := left, store := httpError message t.store, failed := true })
    have hdelivered : visible (contents ((httpError message t.store).view.messages.drop s.view.messages.length)) =
        visible (tag owner (t.lines.flatMap Chunk.replyText)) := by
      rw [hmore, hmessages, List.append_assoc, List.drop_left, contents_append, visible_append, hnew, htext]
    constructor
    · intro hends
      have hall := hends.delivered
      dsimp only at hall
      rw [hdelivered, List.flatMap_append, tag_append, visible_append] at hall
      exact ⟨Or.inl rfl, Or.inl rfl, hunread.mp (List.self_eq_append_right.mp hall)⟩
    · intro horderly
      refine ⟨Or.inr hstop, ?_⟩
      dsimp only
      rw [hdelivered, List.flatMap_append, tag_append, visible_append, hunread.mpr horderly.unread, List.append_nil]

end

/-- Reads the `delta` of an object whose strings have no escapes. -/
def sampleChunkOf : Sse.Message → Chunk
  | .done => doneChunk
  | .json (.obj members) =>
    match members.find? fun p => decide (p.1 = PyStr.ofString "delta") with
    | some (_, .str body) => deltaChunk (body.map fun c => Char.ofNat c.val)
    | _ => Chunk.empty
  | _ => Chunk.empty

/-- `data: {"delta":"Hello"}` and its newline. -/
def sampleLine : Sse.Bytes := Sse.asciiBytes "data: \x7b\"delta\":\"Hello\"\x7d\n"

def sampleAnswer : Answer := .body none [sampleLine, Sse.asciiBytes "\ndata: [DONE]\n"] none

theorem http_turn_ends_iff_sample :
    Ends sampleChunkOf [] sampleStore (httpTurn sampleChunkOf [] false [] sampleAnswer sampleStore) :=
  (http_turn_ends_iff sampleChunkOf [] false [] sampleAnswer sampleStore rfl rfl
    (by intro c _ conv _ p hp; cases hp)).mpr ⟨by decide +kernel, by decide +kernel, by decide +kernel⟩

/-- The connection ends after one complete line: the turn goes on, and its text is in no message. -/
theorem silent_end_hangs :
    (httpTurn sampleChunkOf [] false [] (.body none [sampleLine] none) sampleStore).store.view.streaming = true ∧
      (httpTurn sampleChunkOf [] false [] (.body none [sampleLine] none) sampleStore).handed = false ∧
      (httpTurn sampleChunkOf [] false [] (.body none [sampleLine] none) sampleStore).store.view.messages =
        sampleStore.view.messages ∧
      ¬Ends sampleChunkOf [] sampleStore
        (httpTurn sampleChunkOf [] false [] (.body none [sampleLine] none) sampleStore) := by
  have hstreaming : (httpTurn sampleChunkOf [] false [] (.body none [sampleLine] none) sampleStore).store.view.streaming =
      true := by decide +kernel
  have hhanded : (httpTurn sampleChunkOf [] false [] (.body none [sampleLine] none) sampleStore).handed = false := by
    decide +kernel
  refine ⟨hstreaming, hhanded, by decide +kernel, fun hends => ?_⟩
  rcases hends.stopped with h | h
  · rw [hhanded] at h
    cases h
  · rw [hstreaming] at h
    cases h

end AgentWorkflow.Desktop.Chat
