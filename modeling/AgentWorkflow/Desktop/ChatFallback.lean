import AgentWorkflow.Desktop.ChatAwaiting
import AgentWorkflow.Desktop.ChatSwitching

/-!
# The request after a crash

The HTTP retry of a local-agent turn is rebuilt from what the view shows and from what
the store remembers of the message sent last, in any thread.
-/

namespace AgentWorkflow.Desktop.Chat
open AgentWorkflow.Lib AgentWorkflow.Lib.Calendar

structure UploadedFileRef where
  path : Text
  filename : Text
  size : ℕ
  sandboxRelpath : Option Text
  sha256 : Option Text
deriving DecidableEq

/-- A call of `streamMessage`, and whether `_retryViaHttpAfterCcCrash` made it. -/
structure Request where
  turn : ℕ
  messages : List Message
  uploadedFiles : List UploadedFileRef
  afterCrash : Bool
deriving DecidableEq

/-- The store with `_lastSentAttachments`, the attachments that the calls of
`_sendViaLocalCc` hold, and the requests made so far. -/
structure Outbox where
  system : System
  lastSentAttachments : Option (List UploadedFileRef)
  sendFiles : List (Option (List UploadedFileRef))
  requests : List Request

def attachmentsToSend (pending : List UploadedFileRef) : Option (List UploadedFileRef) :=
  if pending = [] then none else some pending

theorem getD_attachmentsToSend (pending : List UploadedFileRef) : (attachmentsToSend pending).getD [] = pending := by
  unfold attachmentsToSend
  split
  next h => exact h.symm
  · rfl

def Action.crash : Action → Bool
  | .exit _ _ _ _ _ => true
  | _ => false

namespace Outbox
variable (cfg : Config)

def lastAfter (a : Action × List UploadedFileRef) (o : Outbox) : Option (List UploadedFileRef) :=
  match a.1 with
  | .sendMessage _ _ _ _ => if o.system.store.view.streaming then o.lastSentAttachments else attachmentsToSend a.2
  | .reload _ => none
  | _ => o.lastSentAttachments

/-- What a request started by the action carries. -/
def filesOf (a : Action × List UploadedFileRef) (o : Outbox) : Option (List UploadedFileRef) :=
  match a.1 with
  | .startAnswer k | .startThrows k _ | .sendAnswer k _ => (o.sendFiles[k]?).join
  | _ => lastAfter a o

/-- `a.2` are the attachments that are pending; the streams that are new are the requests. -/
def step (o : Outbox) (a : Action × List UploadedFileRef) : Outbox :=
  let s := System.step cfg o.system a.1
  { system := s
    lastSentAttachments := lastAfter a o
    sendFiles :=
      match a.1 with
      | .reload _ => []
      | _ => o.sendFiles ++ (s.sends.drop o.system.sends.length).map fun _ => lastAfter a o
    requests := o.requests ++ (s.streams.drop o.system.streams.length).map fun x =>
      ⟨x.turn, x.messages, (filesOf a o).getD [], a.1.crash⟩ }

def machine : Machine Outbox (Action × List UploadedFileRef) Unit := ⟨fun o a => (step cfg o a, ())⟩

end Outbox

/-! ### The streams of a step -/

namespace System
variable {cfg : Config} {s : System}

/-- Why a step starts a stream. -/
inductive Starts (s : System) : Action → List Stream → Prop
  | nothing (a : Action) : Starts s a []
  | send (content : Text) (route lab : Bool) (now : Text) (x : Stream) (h : x.turn = s.turns.length) :
    Starts s (.sendMessage content route lab now) [x]
  | refused (k : ℕ) (c : Send) (error : Text) (hc : s.sends[k]? = some c) (hpc : c.pc = .refused error)
    (h : c.handoff = false ∧ c.lab = false) (x : Stream) (hx : x.turn = c.turn) : Starts s (.startAnswer k) [x]
  | throws (k : ℕ) (c : Send) (error : Text) (hc : s.sends[k]? = some c) (hpc : c.pc ≠ .sending ∧ c.pc ≠ .finished)
    (h : c.handoff = false ∧ c.lab = false) (x : Stream) (hx : x.turn = c.turn) : Starts s (.startThrows k error) [x]
  | failed (k : ℕ) (c : Send) (error : Text) (hc : s.sends[k]? = some c) (hpc : c.pc = .sending)
    (h : c.handoff = false ∧ c.lab = false) (x : Stream) (hx : x.turn = c.turn) : Starts s (.sendAnswer k (some error)) [x]
  | crash (i : ℕ) (code : Text) (error : Option Text) (route : Bool) (now : Text) (y : Session) (hy : s.sessions[i]? = some y)
    (hview : s.store.view.session = some i) (hflag : s.store.fallbackUsed = false) (x : Stream) (hx : x.turn = y.turn)
    (hmessages : ∀ m, s.store.view.messages.getLast? = some m → m.role = .user → x.messages.getLast? = some m) :
    Starts s (.exit i code error route now) [x]

theorem drop_started {base xs streams : List Stream} {n : ℕ} (h : streams = base ++ xs) (hbase : base.length = n) :
    streams.drop n = xs := by
  rw [h, List.drop_left' hbase]

theorem streams_endIf (ends : Bool) (m : ℕ) (s : System) : (endIf ends m s).streams = s.streams := by
  unfold endIf
  split <;> rfl

theorem length_closeStream (j : Option ℕ) (s : System) : (closeStream j s).streams.length = s.streams.length := by
  unfold closeStream
  split
  · rfl
  · exact List.length_modify _ _ _

/-- The last message stays the last one of what is sent, when the user wrote it. -/
theorem getLast?_request {ms : List Message} {m : Message} (h : ms.getLast? = some m) (hrole : m.role = .user)
    (conv : Option ConvId) :
    (match conv with
      | some _ => (ms.filter fun m => !isWelcome cfg m).getLast?.toList
      | none => ms.filter fun m => !isWelcome cfg m).getLast? = some m := by
  have hkeep : [m].filter (fun m => !isWelcome cfg m) = [m] := by simp [isWelcome, hrole]
  have hlast : (ms.filter fun m => !isWelcome cfg m).getLast? = some m := by
    obtain ⟨ys, rfl⟩ := List.getLast?_eq_some_iff.mp h
    rw [List.filter_append, hkeep]
    simp
  cases conv with
  | none => exact hlast
  | some c => simp [hlast]

theorem streams_sendViaHttp (cfg : Config) (turn : ℕ) (s : System) :
    ∃ x, (sendViaHttp cfg turn s).streams = s.streams ++ [x] ∧ x.turn = turn ∧
      ∀ m, s.store.view.messages.getLast? = some m → m.role = .user → x.messages.getLast? = some m :=
  ⟨_, rfl, rfl, fun _ hm hrole => getLast?_request hm hrole _⟩

theorem starts_dispatchFailed (cfg : Config) (k : ℕ) (c : Send) (thrown : Bool) (error : Text) (s : System) :
    (dispatchFailed cfg k c thrown error s).streams = s.streams ∨
      ∃ x, (dispatchFailed cfg k c thrown error s).streams = s.streams ++ [x] ∧ x.turn = c.turn ∧
        c.handoff = false ∧ c.lab = false := by
  unfold dispatchFailed
  dsimp only
  split
  · exact Or.inl rfl
  next h =>
    rw [Bool.or_eq_true, not_or, Bool.not_eq_true, Bool.not_eq_true] at h
    exact Or.inr ⟨_, rfl, rfl, h⟩

theorem starts_sendViaLocalCc (cfg : Config) (turn : ℕ) (content : Content) (lab : Bool) (s : System) :
    (sendViaLocalCc cfg turn content lab s).streams = s.streams ∨
      ∃ x, (sendViaLocalCc cfg turn content lab s).streams = s.streams ++ [x] ∧ x.turn = turn := by
  unfold sendViaLocalCc
  dsimp only
  split
  · split
    · exact Or.inl rfl
    · exact Or.inr ⟨_, rfl, rfl⟩
  · exact Or.inl rfl

end System

/-- The steps that the claim of a turn in flight ranges over. -/
def Action.inFlight : Action → Bool
  | .historyAnswer _ _ | .deleteAnswer _ _ _ | .setCustomer _ | .userChanged _ | .reload _ => false
  | _ => true

namespace System
variable {cfg : Config} {s : System}

theorem starts_of_length {a : Action} {streams : List Stream} (h : streams.length = s.streams.length) :
    Starts s a (streams.drop s.streams.length) := by
  rw [List.drop_eq_nil_iff.mpr (by omega)]
  exact .nothing a

theorem starts_sendMessage (cfg : Config) (content : Text) (route lab : Bool) (now : Text) :
    Starts s (.sendMessage content route lab now) ((sendMessage cfg content route lab now s).streams.drop s.streams.length) := by
  by_cases hs : s.store.view.streaming = true
  · rw [show sendMessage cfg content route lab now s = s from if_pos hs]
    exact starts_of_length rfl
  let s₁ := closeStream s.store.sse { s with
    turns := s.turns ++ [⟨s.store.activeId, false, false⟩], store := beginTurn content now s.store }
  have hlength : s₁.streams.length = s.streams.length := length_closeStream _ _
  have hstep : sendMessage cfg content route lab now s =
      if route then sendViaLocalCc cfg s.turns.length (tag s.store.activeId content) lab s₁ else sendViaHttp cfg s.turns.length s₁ :=
    if_neg hs
  rw [hstep]
  split
  · rcases starts_sendViaLocalCc cfg s.turns.length (tag s.store.activeId content) lab s₁ with heq | ⟨x, heq, hx⟩
    · exact starts_of_length (by rw [heq, hlength])
    · rw [drop_started heq hlength]
      exact .send content route lab now x hx
  · obtain ⟨x, heq, hx, -⟩ := streams_sendViaHttp cfg s.turns.length s₁
    rw [drop_started heq hlength]
    exact .send content route lab now x hx

theorem starts_exit (i : ℕ) (code : Text) (error : Option Text) (route : Bool) (now : Text) :
    Starts s (.exit i code error route now) ((exit cfg i code error route now s).streams.drop s.streams.length) := by
  cases hx : s.sessions[i]? with
  | none =>
    have hstep : exit cfg i code error route now s = s := by simp [exit, hx]
    rw [hstep]
    exact starts_of_length rfl
  | some y =>
    by_cases hgone : y.alive = true ∨ y.exited = true
    · have hstep : exit cfg i code error route now s = s := by simp [exit, hx, hgone]
      rw [hstep]
      exact starts_of_length rfl
    · simp only [exit, hx, if_neg hgone]
      split
      next hview =>
        split
        next hretries =>
          have hflag : s.store.fallbackUsed = false := by
            have hand : retries route s.store = true := hretries
            simp only [retries, Bool.and_eq_true, Bool.not_eq_true'] at hand
            exact hand.2
          obtain ⟨x, heq, hturn, hmessages⟩ := streams_sendViaHttp cfg y.turn
            { reopenTurn y.turn (crashTurns (y.turn :: y.earlier)
                { s with sessions := s.sessions.set i { y with exited := true } }) with
              store := beginRetry now (exitActive (exitText code error) s.store) }
          refine (congrArg (Starts s _) (drop_started heq rfl)).mpr ?_
          exact .crash i code error route now y hx hview hflag x hturn hmessages
        · exact starts_of_length rfl
      · split <;> exact starts_of_length rfl

theorem starts_line (j : ℕ) (chunk : Chunk) (bridge : Bool) (now : Text) :
    (line j chunk bridge now s).streams.length = s.streams.length := by
  unfold line
  split
  · rfl
  · split
    · rfl
    · split
      · unfold startLocalCcTurn
        split
        all_goals
          refine (length_closeStream _ _).trans ?_
          simp
      · exact congrArg List.length (streams_endIf _ _ s)

/-- What a step of a turn in flight starts. -/
theorem starts_step (cfg : Config) {a : Action} (ha : a.inFlight = true) : Starts s a ((step cfg s a).streams.drop s.streams.length) := by
  cases a with
  | historyAnswer | deleteAnswer | setCustomer | userChanged | reload => simp [Action.inFlight] at ha
  | sendMessage content route lab now => exact starts_sendMessage cfg content route lab now
  | exit i code error route now => exact starts_exit i code error route now
  | startAnswer k =>
    dsimp only [step]
    unfold startAnswer
    cases hc : s.sends[k]? with
    | none => exact starts_of_length rfl
    | some c =>
      dsimp only
      split
      · exact starts_of_length rfl
      next error hpc =>
        rcases starts_dispatchFailed cfg k c false error s with heq | ⟨x, heq, hx, h⟩
        · exact starts_of_length (by rw [heq])
        · rw [drop_started heq rfl]
          exact .refused k c error hc hpc h x hx
      · exact starts_of_length rfl
  | startThrows k error =>
    dsimp only [step]
    unfold startThrows
    cases hc : s.sends[k]? with
    | none => exact starts_of_length rfl
    | some c =>
      dsimp only
      split
      · exact starts_of_length rfl
      · exact starts_of_length rfl
      next hsending hfinished =>
        rcases starts_dispatchFailed cfg k c true error s with heq | ⟨x, heq, hx, h⟩
        · exact starts_of_length (by rw [heq])
        · rw [drop_started heq rfl]
          exact .throws k c error hc ⟨hsending, hfinished⟩ h x hx
  | sendAnswer k thrown =>
    dsimp only [step]
    unfold sendAnswer
    cases hc : s.sends[k]? with
    | none => exact starts_of_length rfl
    | some c =>
      dsimp only
      split
      · exact starts_of_length rfl
      next hpc =>
        cases thrown with
        | none => exact starts_of_length rfl
        | some error =>
          rcases starts_dispatchFailed cfg k c true error s with heq | ⟨x, heq, hx, h⟩
          · exact starts_of_length (by rw [heq])
          · dsimp only
            rw [drop_started heq rfl]
            exact .failed k c error hc (not_not.mp hpc) h x hx
  | line j chunk bridge now => exact starts_of_length (starts_line j chunk bridge now)
  | stopStreaming => exact starts_of_length (length_closeStream _ _)
  | event i m chunk now =>
    refine starts_of_length ?_
    dsimp only [step]
    unfold event
    split
    · rfl
    · split
      · rfl
      · exact congrArg List.length (streams_endIf _ _ s)
  | selectThread id =>
    refine starts_of_length ?_
    dsimp only [step]
    unfold selectThread
    split <;> rfl
  | conversation k answer =>
    refine starts_of_length ?_
    dsimp only [step]
    unfold conversation
    split
    · rfl
    · split <;> rfl
  | startHandled k refusal =>
    refine starts_of_length ?_
    dsimp only [step]
    unfold startHandled
    repeat' split
    all_goals rfl
  | headers j named =>
    refine starts_of_length ?_
    dsimp only [step]
    unfold headers
    split
    · rfl
    · split
      · rfl
      · exact List.length_set
  | httpError j message =>
    refine starts_of_length ?_
    dsimp only [step]
    unfold httpError
    split
    · rfl
    · split
      · rfl
      · exact List.length_set
  | deleteThread id =>
    refine starts_of_length ?_
    dsimp only [step]
    unfold deleteThread
    split <;> rfl
  | createThread | die | historyAsk => exact starts_of_length rfl

end System

namespace Outbox
variable (cfg : Config)

/-- No request has been made for turn `n`. -/
def Unasked (n : ℕ) (o : Outbox) : Prop := ∀ r ∈ o.requests, r.turn ≠ n

/-- The dispatch fails before the turn has a request. -/
def FailsFirst (n : ℕ) (o : Outbox) (c : Send) : Prop := c.turn = n → c.handoff = false → c.lab = false → Unasked n o

/-- `cc_start` is answered for the thread in view, or fails before the turn has a request. -/
def AnswerOk (id : ThreadId) (n : ℕ) (conv : ConvId) (o : Outbox) (c : Send) : Prop :=
  match c.pc with
  | .started _ => c.conv = conv → o.system.store.viewOwner = id
  | .refused _ => FailsFirst n o c
  | _ => True

/-- The step does not make the retry of turn `n` a different request, or a second one:
nothing becomes a message of its thread `id`, the other threads send with the same
attachments, and no dispatch and no exit asks again. -/
def Careful (id : ThreadId) (n : ℕ) (q : Message) (conv : ConvId) (files : Option (List UploadedFileRef)) (o : Outbox)
    (a : Action × List UploadedFileRef) : Prop :=
  let s := o.system
  match a.1 with
  | .createThread _ => System.Idle s
  | .selectThread id' => s.store.activeId = id' ∨ (System.Idle s ∧ ∃ t ∈ s.store.threads, t.id = id')
  | .conversation k answer => ∀ c ∈ s.selects[k]?, c.id = id →
      ∀ ms ∈ cloudWins (c.target.bind fun ref => lookup ref s.store) answer, (tagged id ms).getLast? = some q
  | .sendMessage _ _ _ _ =>
    s.store.view.streaming = true ∨ (s.store.viewOwner ≠ id ∧ s.store.activeId ≠ id ∧ attachmentsToSend a.2 = files)
  | .startAnswer k => ∀ c ∈ s.sends[k]?, AnswerOk id n conv o c
  | .startThrows k _ => ∀ c ∈ s.sends[k]?, c.pc ≠ .sending ∧ c.pc ≠ .finished → FailsFirst n o c
  | .sendAnswer k thrown => thrown.isSome → ∀ c ∈ s.sends[k]?, c.pc = .sending → FailsFirst n o c
  | .event i m chunk _ => Spared id (System.turnThread m s) chunk (some i) s.store
  | .exit i _ _ _ _ =>
    if s.store.view.session = some i then ∀ x ∈ s.sessions[i]?, x.turn = n → Unasked n o ∨ s.store.fallbackUsed = true
    else ∀ t ∈ backgroundOf i s.store, t.id = id → trim t.bgReply = []
  | .line j chunk _ _ => ∀ x ∈ s.streams[j]?, if chunk.type = .modeSwitch ∧ chunk.toLocalCc = true then
        x.turn = n → s.store.view.conv.or chunk.conversationId = some conv
      else Spared id (System.turnThread x.turn s) chunk none s.store
  | .httpError _ _ | .stopStreaming => s.store.viewOwner = id → s.store.view.reply = []
  | .startHandled _ _ | .die _ | .headers _ _ | .historyAsk | .deleteThread _ => True
  | .historyAnswer _ _ | .deleteAnswer _ _ _ | .setCustomer _ | .userChanged _ | .reload _ => False

instance (n : ℕ) (o : Outbox) : Decidable (Unasked n o) := inferInstanceAs (Decidable (∀ r ∈ o.requests, r.turn ≠ n))

instance (n : ℕ) (o : Outbox) (c : Send) : Decidable (FailsFirst n o c) := inferInstanceAs (Decidable (_ → _ → _ → Unasked n o))

instance (id : ThreadId) (n : ℕ) (conv : ConvId) (o : Outbox) (c : Send) : Decidable (AnswerOk id n conv o c) := by
  unfold AnswerOk
  split <;> infer_instance

instance (s : System) : Decidable (System.Idle s) := inferInstanceAs (Decidable (∀ c ∈ s.selects, c.pending = false))

instance (id : ThreadId) (n : ℕ) (q : Message) (conv : ConvId) (files : Option (List UploadedFileRef)) (o : Outbox)
    (a : Action × List UploadedFileRef) : Decidable (Careful id n q conv files o a) := by
  unfold Careful
  dsimp only
  split <;> infer_instance

section
variable {cfg} {id : ThreadId} {n : ℕ} {q : Message} {conv : ConvId} {files : Option (List UploadedFileRef)} {o : Outbox}

theorem Careful.inFlight {a : Action × List UploadedFileRef} (h : Careful id n q conv files o a) : a.1.inFlight = true := by
  obtain ⟨a, pending⟩ := a
  cases a with
  | historyAnswer | deleteAnswer | setCustomer | userChanged | reload => exact absurd h not_false
  | _ => rfl

theorem awaiting_step {a : Action × List UploadedFileRef} (h : System.Awaiting id n q conv o.system)
    (hk : Careful id n q conv files o a) : System.Awaiting id n q conv (System.step cfg o.system a.1) := by
  obtain ⟨a, pending⟩ := a
  cases a with
  | createThread now => exact System.awaiting_createThread h hk now
  | selectThread id' => exact System.awaiting_selectThread h hk
  | conversation k answer => exact System.awaiting_conversation h k answer hk
  | sendMessage content route lab now => exact System.awaiting_sendMessage h content route lab now (hk.imp_right And.left)
  | startHandled k refusal => exact System.awaiting_startHandled h k refusal
  | startAnswer k =>
    refine System.awaiting_startAnswer h k ?_
    intro c hc i hpc
    have hok := hk c hc
    unfold AnswerOk at hok
    rw [hpc] at hok
    exact hok
  | startThrows k error => exact System.awaiting_startThrows h k error
  | sendAnswer k thrown => exact System.awaiting_sendAnswer h k thrown
  | die i => exact System.awaiting_die h i
  | event i m chunk now => exact System.awaiting_event h i m chunk now hk
  | exit i code error route now =>
    refine System.awaiting_exit h i code error route now ?_
    intro hview
    dsimp only [Careful] at hk
    rw [if_neg hview] at hk
    exact hk
  | headers j named => exact System.awaiting_headers h j named
  | line j chunk bridge now => exact System.awaiting_line h j chunk bridge now hk
  | httpError j message => exact System.awaiting_httpError h j message hk
  | stopStreaming => exact System.awaiting_stopStreaming h hk
  | historyAsk => exact h.plain rfl (.refl id _) rfl rfl
  | deleteThread id' => exact System.awaiting_deleteThread h id'
  | historyAnswer | deleteAnswer | setCustomer | userChanged | reload => exact absurd hk not_false

/-- The retry of the turn asks the question with its attachments, and there is one request. -/
structure Replayed (n : ℕ) (q : Message) (files : Option (List UploadedFileRef)) (o : Outbox) : Prop where
  retry : ∀ r ∈ o.requests, r.turn = n → r.afterCrash = true → r.messages.getLast? = some q ∧ r.uploadedFiles = files.getD []
  once : (o.requests.filter fun r => decide (r.turn = n)).length ≤ 1

structure Tracked (id : ThreadId) (n : ℕ) (q : Message) (conv : ConvId) (files : Option (List UploadedFileRef)) (o : Outbox) :
    Prop extends Replayed n q files o where
  awaiting : System.Awaiting id n q conv o.system
  last : o.lastSentAttachments = files

/-- One more request. -/
theorem Replayed.add (h : Replayed n q files o) {o' : Outbox} {r : Request} (ho : o'.requests = o.requests ++ [r])
    (hfirst : r.turn = n → Unasked n o) (hr : r.turn = n → r.afterCrash = true →
      r.messages.getLast? = some q ∧ r.uploadedFiles = files.getD []) : Replayed n q files o' := by
  constructor
  · intro r' hr'
    rw [ho] at hr'
    rcases List.mem_append.mp hr' with hmem | hmem
    · exact h.retry r' hmem
    · rw [List.mem_singleton.mp hmem]
      exact hr
  · rw [ho, List.filter_append, List.length_append]
    by_cases hturn : r.turn = n
    · have hnone : (o.requests.filter fun r => decide (r.turn = n)) = [] := by
        rw [List.filter_eq_nil_iff]
        intro x hx
        simpa using hfirst hturn x hx
      rw [hnone, List.length_nil, Nat.zero_add]
      exact List.length_filter_le _ _
    · have hone : ([r].filter fun r => decide (r.turn = n)) = [] := by simp [hturn]
      rw [hone]
      exact h.once

theorem last_step {a : Action × List UploadedFileRef} (h : o.lastSentAttachments = files)
    (hk : Careful id n q conv files o a) : lastAfter a o = files := by
  obtain ⟨a, pending⟩ := a
  cases a with
  | sendMessage content route lab now =>
    dsimp only [lastAfter]
    split
    · exact h
    next hs => exact (hk.resolve_left hs).2.2
  | reload now => exact absurd hk not_false
  | _ => exact h

theorem tracked_step (cfg : Config) {a : Action × List UploadedFileRef} (hq : q.role = .user) (h : Tracked id n q conv files o)
    (hk : Careful id n q conv files o a) : Tracked id n q conv files (step cfg o a) := by
  have hlast := last_step h.last hk
  have hstarts := System.starts_step cfg (s := o.system) hk.inFlight
  have hrequests : (step cfg o a).requests = o.requests ++
      ((System.step cfg o.system a.1).streams.drop o.system.streams.length).map fun x =>
        ⟨x.turn, x.messages, (filesOf a o).getD [], a.1.crash⟩ := rfl
  refine ⟨?_, awaiting_step h.awaiting hk, hlast⟩
  have hadd := h.toReplayed
  obtain ⟨a, pending⟩ := a
  generalize hxs : (System.step cfg o.system a).streams.drop o.system.streams.length = xs at hstarts hrequests
  cases hstarts with
  | nothing =>
    rw [List.map_nil, List.append_nil] at hrequests
    exact ⟨by rw [hrequests]; exact hadd.retry, by rw [hrequests]; exact hadd.once⟩
  | send content route lab now x hx =>
    have hne : x.turn ≠ n := by
      have := h.awaiting.turn
      omega
    exact hadd.add hrequests (fun hturn => absurd hturn hne) fun hturn => absurd hturn hne
  | refused k c error hc hpc hkind x hx =>
    have hok := hk c hc
    unfold AnswerOk at hok
    rw [hpc] at hok
    exact hadd.add hrequests (fun hturn => hok (hx.symm.trans hturn) hkind.1 hkind.2) fun _ hcrash => nomatch hcrash
  | throws k c error hc hpc hkind x hx =>
    have hok := hk c hc hpc
    exact hadd.add hrequests (fun hturn => hok (hx.symm.trans hturn) hkind.1 hkind.2) fun _ hcrash => nomatch hcrash
  | failed k c error hc hpc hkind x hx =>
    have hok := hk rfl c hc hpc
    exact hadd.add hrequests (fun hturn => hok (hx.symm.trans hturn) hkind.1 hkind.2) fun _ hcrash => nomatch hcrash
  | crash i code error route now y hy hview hflag x hx hmessages =>
    dsimp only [Careful] at hk
    rw [if_pos hview] at hk
    refine hadd.add hrequests ?_ ?_
    · intro hturn
      refine (hk y hy (hx.symm.trans hturn)).resolve_right ?_
      rw [hflag]
      exact Bool.false_ne_true
    · intro hturn _
      -- the session is one of the conversation, so the view is the one of the thread
      have hconv := h.awaiting.linked.sessions y (List.mem_of_getElem? hy) (hx.symm.trans hturn)
      have howner : o.system.store.viewOwner = id := by
        by_contra hother
        obtain ⟨z, hz, hne⟩ := h.awaiting.view hother i hview
        rw [hy] at hz
        cases hz
        exact hne hconv
      refine ⟨hmessages q (h.awaiting.shown howner) hq, ?_⟩
      exact congrArg (Option.getD · []) hlast

end

/-! ### The send -/

/-- The thread `t` is in view and nothing of another thread is shown for it. -/
structure Ready (t : Thread) (o : Outbox) : Prop where
  active : activeThread o.system.store = some t
  wellFormed : WellFormed o.system.store
  idle : System.Idle o.system
  owner : o.system.store.viewOwner = o.system.store.activeId
  free : o.system.store.view.streaming = false
  sole : Sole t.id o.system.store
  unborn : ∀ m, o.system.store.counter ≤ m → threadId m ≠ t.id
  apart : SessionsApart t.id (t.conversationId.getD (System.nextConv cfg o.system)) o.system.sessions o.system.store.threads
  sends : ∀ c ∈ o.system.sends, c.turn < o.system.turns.length
  started : ∀ c ∈ o.system.sends, ∀ i, c.pc = .started i → ∃ x, o.system.sessions[i]? = some x ∧ x.conv = c.conv
  sessions : ∀ x ∈ o.system.sessions, x.turn < o.system.turns.length
  requests : ∀ r ∈ o.requests, r.turn < o.system.turns.length

section
variable {cfg} {t : Thread} {o : Outbox}

theorem activeThread_updateActive {s : Store} (h : activeThread s = some t) {f : Thread → Thread} (hid : ∀ u, (f u).id = u.id) :
    activeThread (updateActive f s) = some (f t) := by
  unfold updateActive
  rw [h]
  have hfind : findThread s.activeId (update t.ref f s) = (findThread s.activeId s).map fun u => if u.ref = t.ref then f u else u :=
    findThread_update s.activeId t.ref hid s
  refine hfind.trans ?_
  rw [show findThread s.activeId s = some t from h]
  simp

theorem beginTurn_eq (content now : Text) (s : Store) :
    ∃ r : Store, beginTurn content now s = updateActive (fun t => { t with updatedAt := now }) r ∧ r.threads = s.threads ∧
      r.detached = s.detached ∧ r.activeId = s.activeId ∧ r.view.messages = s.view.messages ++ [⟨.user, tag s.activeId content⟩] :=
  ⟨_, rfl, rfl, rfl, rfl, rfl⟩

theorem sendViaLocalCc_active (cfg : Config) {s : System} (turn : ℕ) (content : Content) (lab : Bool)
    (h : activeThread { s.store with gotCcDone := false } = some t) :
    ∃ r, System.sendViaLocalCc cfg turn content lab s =
        { s with
          store := r
          convs := s.convs ++ [t.id]
          sends := s.sends ++ [⟨turn, t.conversationId.getD (System.nextConv cfg s), content, lab, false, .starting⟩] } ∧
      ∀ id, Leaves id s.store r := by
  have hconv : (ensureConvId t (System.nextConv cfg s) { s.store with gotCcDone := false }).1 =
      t.conversationId.getD (System.nextConv cfg s) := by
    unfold ensureConvId
    cases t.conversationId <;> rfl
  have hsend : System.sendViaLocalCc cfg turn content lab s =
      { s with
        store := (System.sendViaLocalCc cfg turn content lab s).store
        convs := s.convs ++ [t.id]
        sends := s.sends ++ [⟨turn, t.conversationId.getD (System.nextConv cfg s), content, lab, false, .starting⟩] } := by
    rw [← hconv]
    unfold System.sendViaLocalCc
    dsimp only
    rw [h]
    rfl
  exact ⟨_, hsend, fun id => System.leaves_sendViaLocalCc turn content lab s⟩

theorem awaiting_send (h : Ready cfg t o) (content : Text) (lab : Bool) (now : Text) :
    System.Awaiting t.id o.system.turns.length ⟨.user, tag t.id content⟩
      (t.conversationId.getD (System.nextConv cfg o.system)) (System.sendMessage cfg content true lab now o.system) := by
  have hid : t.id = o.system.store.activeId := (activeThread_some h.active).2
  let s₁ := System.closeStream o.system.store.sse { o.system with
    turns := o.system.turns ++ [⟨o.system.store.activeId, false, false⟩], store := beginTurn content now o.system.store }
  have hstep : System.sendMessage cfg content true lab now o.system =
      System.sendViaLocalCc cfg o.system.turns.length (tag o.system.store.activeId content) lab s₁ := by
    unfold System.sendMessage
    rw [h.free]
    rfl
  have hstore : s₁.store = beginTurn content now o.system.store := System.frame_closeStream _ _
  have hconvs : s₁.convs = o.system.convs := System.convs_closeStream _ _
  have hturns : s₁.turns = o.system.turns ++ [⟨o.system.store.activeId, false, false⟩] := System.turns_closeStream _ _
  have hsends := System.sends_closeStream o.system.store.sse { o.system with
    turns := o.system.turns ++ [⟨o.system.store.activeId, false, false⟩], store := beginTurn content now o.system.store }
  have hactive : activeThread { s₁.store with gotCcDone := false } = some { t with updatedAt := now } := by
    rw [hstore]
    obtain ⟨r, hbegin, hthreads, -, hactive, -⟩ := beginTurn_eq content now o.system.store
    rw [hbegin]
    have hr : activeThread r = some t := by
      unfold activeThread findThread
      rw [hthreads, hactive]
      exact h.active
    exact activeThread_updateActive hr (f := fun u : Thread => { u with updatedAt := now }) fun _ => rfl
  obtain ⟨r, hsent, hleaves⟩ := sendViaLocalCc_active cfg o.system.turns.length
    (tag o.system.store.activeId content) lab hactive
  have hf : Frame ident o.system.store (System.sendMessage cfg content true lab now o.system).store :=
    System.frame_step_ident cfg (a := .sendMessage content true lab now) rfl
  have hselects : (System.sendMessage cfg content true lab now o.system).selects = o.system.selects :=
    System.selects_step cfg (s := o.system) (a := .sendMessage content true lab now) rfl
  have hidle : System.Idle (System.sendMessage cfg content true lab now o.system) := by
    unfold System.Idle
    rw [hselects]
    exact h.idle
  have howner : o.system.store.viewOwner = t.id := h.owner.trans hid.symm
  have hbegin : SessionsApart t.id (t.conversationId.getD (System.nextConv cfg o.system)) o.system.sessions s₁.store.threads := by
    obtain ⟨b, hb, hthreads, hdetached, -, -⟩ := beginTurn_eq content now o.system.store
    have hunique : RefsUnique b := by
      unfold RefsUnique
      rw [hthreads, hdetached]
      exact h.wellFormed.unique
    rw [hstore, hb]
    refine SessionsApart.keep ?_ hunique (fun _ => rfl) fun _ => rfl
    rw [hthreads]
    exact h.apart
  refine ⟨hf.wellFormed h.wellFormed, ?_, ?_, h.sole.frame hf, ?_, ?_, ?_, ?_, ?_, ?_, ?_⟩
  · intro _
    rw [hf.viewOwner, hf.activeId]
    exact h.owner
  · intro c hc hp
    exact absurd hp (Bool.eq_false_iff.mp (hidle c hc))
  · intro m hm
    rw [hf.counter] at hm
    exact h.unborn m hm
  · intro hshown
    rw [hstep, hsent]
    have hown : s₁.store.viewOwner = t.id := by
      rw [hstore, (frame_beginTurn (g := key) content now o.system.store).viewOwner]
      exact howner
    obtain ⟨b, hb, -, -, -, hmessages⟩ := beginTurn_eq content now o.system.store
    rw [(hleaves t.id).messages hown, hstore, hb, view_updateActive, hmessages, ← hid]
    exact List.getLast?_concat
  · intro hstale
    rw [hf.activeId] at hstale
    exact absurd hid.symm (hstale.resolve_left (not_not.mpr hidle))
  · intro hne
    rw [hf.viewOwner] at hne
    exact absurd howner hne
  · rw [hstep, hsent]
    refine SessionsApart.leaves ?_ (hleaves t.id)
    rw [hsends.2]
    exact hbegin
  · rw [hstep, hsent]
    show o.system.turns.length < s₁.turns.length
    rw [hturns, List.length_append]
    exact Nat.lt_succ_self _
  · rw [hstep, hsent]
    show Linked _ _ (s₁.sends ++ _) s₁.sessions
    rw [hsends.1, hsends.2]
    have hlinked : Linked o.system.turns.length (t.conversationId.getD (System.nextConv cfg o.system)) o.system.sends
        o.system.sessions :=
      ⟨fun c hc hturn => absurd hturn (h.sends c hc).ne, h.started, fun x hx hturn => absurd hturn (h.sessions x hx).ne⟩
    refine hlinked.append (fun _ => ?_) rfl
    show _ = _
    unfold System.nextConv
    rw [hconvs]

theorem tracked_send (h : Ready cfg t o) (content : Text) (lab : Bool) (now : Text) (pending : List UploadedFileRef) :
    Tracked t.id o.system.turns.length ⟨.user, tag t.id content⟩ (t.conversationId.getD (System.nextConv cfg o.system))
      (attachmentsToSend pending) (step cfg o (.sendMessage content true lab now, pending)) := by
  have hunasked : Unasked o.system.turns.length o := fun r hr => (h.requests r hr).ne
  have hreplayed : Replayed o.system.turns.length ⟨.user, tag t.id content⟩ (attachmentsToSend pending) o := by
    refine ⟨fun r hr hturn => absurd hturn (hunasked r hr), ?_⟩
    have hnone : (o.requests.filter fun r => decide (r.turn = o.system.turns.length)) = [] := by
      rw [List.filter_eq_nil_iff]
      intro r hr
      simpa using hunasked r hr
    rw [hnone]
    exact Nat.zero_le 1
  have hstarts := System.starts_sendMessage cfg (s := o.system) content true lab now
  have hrequests : (step cfg o (.sendMessage content true lab now, pending)).requests = o.requests ++
      ((System.sendMessage cfg content true lab now o.system).streams.drop o.system.streams.length).map fun x =>
        ⟨x.turn, x.messages, (filesOf (.sendMessage content true lab now, pending) o).getD [], false⟩ := rfl
  refine ⟨?_, awaiting_send h content lab now, ?_⟩
  · generalize (System.sendMessage cfg content true lab now o.system).streams.drop o.system.streams.length = xs at hstarts hrequests
    cases hstarts with
    | nothing =>
      rw [List.map_nil, List.append_nil] at hrequests
      exact ⟨by rw [hrequests]; exact hreplayed.retry, by rw [hrequests]; exact hreplayed.once⟩
    | send content route lab now x hx => exact hreplayed.add hrequests (fun _ => hunasked) fun _ hcrash => nomatch hcrash
  · show lastAfter (.sendMessage content true lab now, pending) o = attachmentsToSend pending
    unfold lastAfter
    rw [h.free]
    rfl

end

/-- The store after its first load, before anything was sent. -/
def start : Outbox := ⟨System.init .plain [] ∅ [], none, [], []⟩

def firstThread : Thread := newThread .plain 0 (threadId 1) [] (Config.plain.genConvId 0) []

theorem ready_start : Ready .plain firstThread start := by
  refine ⟨by decide +kernel, ⟨?_, by decide +kernel⟩, by decide +kernel, by decide +kernel, rfl, ?_, ?_, ?_, ?_, ?_, ?_, ?_⟩
  · unfold RefsUnique
    decide +kernel
  · unfold Sole
    decide +kernel
  · intro m hm hid
    have hone : m = 1 := threadId_injective hid
    have hcounter : start.system.store.counter = 2 := by decide +kernel
    omega
  · have hlone : ∀ u ∈ start.system.store.threads, u.bgSession = none := by decide +kernel
    intro u hu _ i hi
    rw [hlone u hu] at hi
    cases hi
  all_goals
    intro x hx
    cases hx

def agreementPdf : UploadedFileRef := ⟨"/tmp/a.pdf".toList, "a.pdf".toList, 3, none, none⟩

/-- The user looks at a second thread while the agent answers, sends there and comes
back before the agent dies. -/
def crashAfterVisit : List (Action × List UploadedFileRef) :=
  [(.startHandled 0 none, []), (.startAnswer 0, []), (.sendAnswer 0 none, []), (.event 0 0 (deltaChunk "Well".toList) [], []),
    (.createThread [], []), (.sendMessage "Ho".toList true false [], [agreementPdf]), (.startHandled 1 none, []), (.startAnswer 1, []),
    (.sendAnswer 1 none, []), (.selectThread (threadId 1), []), (.conversation 0 none, []), (.die 0, []), (.exit 0 "1".toList none true [], [])]

example : ((machine .plain).run (step .plain start (.sendMessage "Hi".toList true false [], [agreementPdf])) crashAfterVisit).requests.map
    Request.afterCrash = [true] := by decide +kernel

/-- A status flushes the reply before the agent dies. -/
def crashAfterTool : List (Action × List UploadedFileRef) :=
  [(.startHandled 0 none, []), (.startAnswer 0, []), (.sendAnswer 0 none, []), (.event 0 0 (deltaChunk "Well".toList) [], []),
    (.event 0 0 { Chunk.empty with type := .ccStatus, label := "Read".toList } [], []), (.die 0, []),
    (.exit 0 "1".toList none true [], [])]

end Outbox

end AgentWorkflow.Desktop.Chat
