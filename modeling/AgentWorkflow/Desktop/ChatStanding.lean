import AgentWorkflow.Desktop.ChatDeltas

/-!
# One turn, in view and in the background

What a local-agent turn has brought so far, apart from where it is kept, and what each
of its chunks does to it in the two ingesters. A turn that is always in view and one
that is not are related as long as no chunk is one on which the ingesters differ.
-/

namespace AgentWorkflow.Desktop.Chat
open AgentWorkflow.Lib AgentWorkflow.Lib.Calendar

/-! ### Chunks of a local agent -/

/-- An error chunk: what else it carries is not read. -/
structure IsReport (c : Chunk) : Prop where
  report : (extractErrorChunk c).isSome = true
  conv : c.conversationId = none
  status : c.type ≠ .ccStatus
  start : c.type ≠ .messageStart

inductive AgentChunk where
  | delta (text : Text)
  | choice (content : Option Text) (stop : Bool)
  | status (label : Text) (tool : Option Text) (labelled : label ≠ [])
  | messageStart (ccSessionId : Text)
  | error (report : Chunk) (h : IsReport report)
  | done

/-- As the wrapper sends it: `message_start` names the conversation. -/
def AgentChunk.chunk (conv : ConvId) : AgentChunk → Chunk
  | .delta text => deltaChunk text
  | .choice content stop => { Chunk.empty with choice := some ⟨content, stop⟩ }
  | .status label tool _ => { Chunk.empty with type := .ccStatus, label := label, tool := tool }
  | .messageStart session => { Chunk.empty with type := .messageStart, ccSessionId := some session, conversationId := some conv }
  | .error report _ => report
  | .done => doneChunk

/-! ### Standings -/

structure Standing where
  messages : List Message
  reply : Content
  streaming : Bool
  session : Option ℕ
  resume : Option Text
  todos : List Todo

namespace Standing

def add (text : Content) (p : Standing) : Standing := { p with reply := p.reply ++ text }

def bubble (content : Content) (p : Standing) : Standing :=
  { p with messages := p.messages ++ [⟨.assistant, content⟩], reply := [] }

def stop (p : Standing) : Standing := { p with reply := [], streaming := false }

/-- `cc_status` in view: the text before the step becomes a message. -/
def flush (p : Standing) : Standing := if trim p.reply = [] then p else p.bubble p.reply

/-- An error in view. -/
def report (p : Standing) : Standing := if p.reply = [] then p.stop else (p.bubble p.reply).stop

/-- The end of the turn in view. -/
def finish (p : Standing) : Standing :=
  if trim p.reply = [] then p.stop
  else { (p.bubble p.reply).stop with todos := p.todos.map fun t => { t with done := true } }

/-- The end of the turn in the background, by an error as well. -/
def leave (p : Standing) : Standing :=
  { (if trim p.reply = [] then p.stop else (p.bubble (trim p.reply)).stop) with session := none }

variable (owner : ThreadId)

def inView : AgentChunk → Standing → Standing
  | .delta text, p => if (errorCode text).isSome then p.report else p.add (tag owner text)
  | .choice content stop, p =>
    if stop then (p.add (tag owner (content.getD []))).finish else p.add (tag owner (content.getD []))
  | .status label tool _, p => { p.flush with todos := addTodo label tool p.todos }
  | .messageStart session, p => { p with resume := some session }
  | .error _ _, p => p.report
  | .done, p => p.finish

def away : AgentChunk → Standing → Standing
  | .delta text, p => if (errorCode text).isSome then p.leave else p.add (tag owner text)
  | .choice content stop, p =>
    if stop then (p.add (tag owner (content.getD []))).leave else p.add (tag owner (content.getD []))
  | .status label tool _, p => { p with todos := addTodo label tool p.todos }
  | .messageStart session, p => { p with resume := some session }
  | .error _ _, p => p.leave
  | .done, p => p.leave

end Standing

/-! ### Bubbles of one text -/

/-- The messages are the text cut up, white space at the cuts left out or not. -/
inductive Cut : List Message → Content → Prop
  | nil : Cut [] []
  | space {ms : List Message} {text w : Content} : Cut ms text → Spaces w → Cut ms (text ++ w)
  | bubble {ms : List Message} {text : Content} (c : Content) : Cut ms text → Cut (ms ++ [⟨.assistant, c⟩]) (text ++ c)

theorem Cut.trim {ms : List Message} {text : Content} (h : Cut ms text) (c : Content) :
    Cut (ms ++ [⟨.assistant, Chat.trim c⟩]) (text ++ c) := by
  obtain ⟨lead, trail, hc, hlead, htrail⟩ := trim_split c
  have hcut := ((h.space hlead).bubble (Chat.trim c)).space htrail
  rw [List.append_assoc, List.append_assoc, ← List.append_assoc lead, ← hc] at hcut
  exact hcut

/-! ### A turn that is always in view and one that is not -/

/-- The texts of the chunk when it ends the turn without an error. -/
def AgentChunk.ending : AgentChunk → Option Text
  | .choice content true => some (content.getD [])
  | .done => some []
  | _ => none

/-- The end marks the steps in both turns or in neither, or has none to mark. `p` is the
turn that is always in view. -/
def MarksAlike (owner : ThreadId) (shown : Bool) (c : AgentChunk) (p q : Standing) : Prop :=
  ∀ text ∈ c.ending, (∀ t ∈ q.todos, t.done = true) ∨
    if trim (p.reply ++ tag owner text) = [] then shown = true → trim (q.reply ++ tag owner text) = []
    else shown = true

/-- A chunk that comes too late: it adds nothing to a turn that is over. -/
def Inert (owner : ThreadId) (shown : Bool) (p : Standing) : AgentChunk → Prop
  | .delta text => (errorCode text).isSome → trim p.reply = []
  | .choice content stop => stop = true → trim (p.reply ++ tag owner (content.getD [])) = []
  | .status label tool _ => trim p.reply = [] ∧ addTodo label tool p.todos = p.todos
  | .messageStart session => shown = true ∨ p.resume = some session
  | .error _ _ => trim p.reply = []
  | .done => trim p.reply = []

instance (owner : ThreadId) (shown : Bool) (c : AgentChunk) (p q : Standing) : Decidable (MarksAlike owner shown c p q) := by
  unfold MarksAlike
  infer_instance

instance (owner : ThreadId) (shown : Bool) (p : Standing) : (c : AgentChunk) → Decidable (Inert owner shown p c)
  | .delta _ => inferInstanceAs (Decidable (_ → _))
  | .choice _ _ => inferInstanceAs (Decidable (_ → _))
  | .status _ _ _ => inferInstanceAs (Decidable (_ ∧ _))
  | .messageStart _ => inferInstanceAs (Decidable (_ ∨ _))
  | .error _ _ => inferInstanceAs (Decidable (_ = _))
  | .done => inferInstanceAs (Decidable (_ = _))

/-- Both turns have the same text, also where it is no message yet. -/
structure Live (base : List Message) (i : ℕ) (p q : Standing) : Prop where
  session : q.session = some i
  streaming : p.streaming = q.streaming
  texts : ∃ ms ns x y, p.messages = base ++ ms ∧ q.messages = base ++ ns ∧ Cut ms x ∧ Cut ns y ∧
    x ++ p.reply = y ++ q.reply
  blank : trim q.reply = [] → trim p.reply = []
  ended : q.streaming = false → p.reply = q.reply
  resume : p.resume = q.resume
  todos : p.todos = q.todos

/-- What is to be compared. -/
structure Agree (base : List Message) (p q : Standing) : Prop where
  texts : ∃ ms ns x, p.messages = base ++ ms ∧ q.messages = base ++ ns ∧ Cut ms x ∧ Cut ns x
  resume : p.resume = q.resume
  todos : p.todos = q.todos

section
variable {base : List Message} {i : ℕ} {owner : ThreadId} {p q : Standing}

theorem trim_append_nil {a b : Content} : trim (a ++ b) = [] ↔ trim a = [] ∧ trim b = [] := by
  simp only [trim_eq_nil_iff, spaces_append]

theorem Live.add (h : Live base i p q) (text : Content) : Live base i (p.add text) (q.add text) := by
  obtain ⟨ms, ns, x, y, hp, hq, hx, hy, htext⟩ := h.texts
  refine ⟨h.session, h.streaming, ⟨ms, ns, x, y, hp, hq, hx, hy, ?_⟩, ?_, ?_, h.resume, h.todos⟩
  · simp only [Standing.add, ← List.append_assoc, htext]
  · simp only [Standing.add, trim_append_nil]
    exact fun hnil => ⟨h.blank hnil.1, hnil.2⟩
  · intro hended
    simp only [Standing.add, h.ended hended]

/-- A reply that becomes a message, or is white space and becomes none. -/
theorem cut_flush {ms : List Message} {x reply : Content} (h : Cut ms x) :
    Cut (if trim reply = [] then ms else ms ++ [⟨.assistant, reply⟩]) (x ++ reply) := by
  split
  next hnil => exact h.space ((trim_eq_nil_iff reply).mp hnil)
  · exact h.bubble reply

theorem cut_report {ms : List Message} {x reply : Content} (h : Cut ms x) :
    Cut (if reply = [] then ms else ms ++ [⟨.assistant, reply⟩]) (x ++ reply) := by
  split
  next hnil =>
    rw [hnil, List.append_nil]
    exact h
  · exact h.bubble reply

theorem cut_leave {ms : List Message} {x reply : Content} (h : Cut ms x) :
    Cut (if trim reply = [] then ms else ms ++ [⟨.assistant, trim reply⟩]) (x ++ reply) := by
  split
  next hnil => exact h.space ((trim_eq_nil_iff reply).mp hnil)
  · exact h.trim reply

end

namespace Standing
variable (base : List Message) (p : Standing)

theorem report_messages {ms : List Message} (h : p.messages = base ++ ms) :
    p.report.messages = base ++ (if p.reply = [] then ms else ms ++ [⟨.assistant, p.reply⟩]) := by
  unfold report
  split
  · exact h
  · simp [bubble, stop, h]

theorem finish_messages {ms : List Message} (h : p.messages = base ++ ms) :
    p.finish.messages = base ++ (if trim p.reply = [] then ms else ms ++ [⟨.assistant, p.reply⟩]) := by
  unfold finish
  split
  · exact h
  · simp [bubble, stop, h]

theorem leave_messages {ms : List Message} (h : p.messages = base ++ ms) :
    p.leave.messages = base ++ (if trim p.reply = [] then ms else ms ++ [⟨.assistant, trim p.reply⟩]) := by
  unfold leave
  dsimp only
  split
  · exact h
  · simp [bubble, stop, h]

theorem flush_messages {ms : List Message} (h : p.messages = base ++ ms) :
    p.flush.messages = base ++ (if trim p.reply = [] then ms else ms ++ [⟨.assistant, p.reply⟩]) := by
  unfold flush
  split
  · exact h
  · simp [bubble, h]

/-- What the end of a turn leaves besides the messages. -/
theorem report_rest : p.report.reply = [] ∧ p.report.streaming = false ∧ p.report.session = p.session ∧
    p.report.resume = p.resume ∧ p.report.todos = p.todos := by
  unfold report
  split <;> exact ⟨rfl, rfl, rfl, rfl, rfl⟩

theorem finish_rest : p.finish.reply = [] ∧ p.finish.streaming = false ∧ p.finish.session = p.session ∧
    p.finish.resume = p.resume ∧
    p.finish.todos = if trim p.reply = [] then p.todos else p.todos.map fun t => { t with done := true } := by
  unfold finish
  split <;> exact ⟨rfl, rfl, rfl, rfl, rfl⟩

theorem leave_rest : p.leave.reply = [] ∧ p.leave.session = none ∧ p.leave.resume = p.resume ∧ p.leave.todos = p.todos := by
  unfold leave
  dsimp only
  split <;> exact ⟨rfl, rfl, rfl, rfl⟩

theorem flush_rest : p.flush.reply = (if trim p.reply = [] then p.reply else []) ∧ p.flush.streaming = p.streaming ∧
    p.flush.session = p.session ∧ p.flush.resume = p.resume ∧ p.flush.todos = p.todos := by
  unfold flush
  split <;> exact ⟨rfl, rfl, rfl, rfl, rfl⟩

end Standing

section
variable {base : List Message} {i : ℕ} {owner : ThreadId} {p q : Standing}

/-- Marking done what is done changes nothing. -/
theorem map_done {todos : List Todo} (h : ∀ t ∈ todos, t.done = true) : (todos.map fun t => { t with done := true }) = todos := by
  conv_rhs => rw [← List.map_id todos]
  apply List.map_congr_left
  intro t ht
  have hdone := h t ht
  cases t
  simp_all

/-- Both turns end with their replies as messages. -/
theorem Live.ended_live {p' q' : Standing} (h : Live base i p q)
    (hp : ∀ ms, p.messages = base ++ ms → ∃ ms', p'.messages = base ++ ms' ∧ ∀ x, Cut ms x → Cut ms' (x ++ p.reply))
    (hq : ∀ ms, q.messages = base ++ ms → ∃ ms', q'.messages = base ++ ms' ∧ ∀ x, Cut ms x → Cut ms' (x ++ q.reply))
    (hresume : p'.resume = q'.resume) (htodos : p'.todos = q'.todos) : Agree base p' q' := by
  obtain ⟨ms, ns, x, y, hpm, hqm, hx, hy, htext⟩ := h.texts
  obtain ⟨ms', hms, hcutp⟩ := hp ms hpm
  obtain ⟨ns', hns, hcutq⟩ := hq ns hqm
  refine ⟨⟨ms', ns', x ++ p.reply, hms, hns, hcutp x hx, ?_⟩, hresume, htodos⟩
  rw [htext]
  exact hcutq y hy

/-- Where both replies are empty, what agrees is live. -/
theorem Agree.live (h : Agree base p q) (hsession : q.session = some i) (hstream : p.streaming = q.streaming)
    (hp : p.reply = []) (hq : q.reply = []) : Live base i p q := by
  obtain ⟨ms, ns, x, hpm, hqm, hx, hy⟩ := h.texts
  refine ⟨hsession, hstream, ⟨ms, ns, x, x, hpm, hqm, hx, hy, by rw [hp, hq]⟩, ?_, ?_, h.resume, h.todos⟩
  · intro _
    rw [hp]
    rfl
  · intro _
    rw [hp, hq]

theorem Live.report (h : Live base i p q) : Agree base p.report q.report :=
  h.ended_live (fun _ hms => ⟨_, Standing.report_messages base p hms, fun _ => cut_report⟩)
    (fun _ hns => ⟨_, Standing.report_messages base q hns, fun _ => cut_report⟩)
    (by rw [p.report_rest.2.2.2.1, q.report_rest.2.2.2.1, h.resume])
    (by rw [p.report_rest.2.2.2.2, q.report_rest.2.2.2.2, h.todos])

theorem Live.report_live (h : Live base i p q) : Live base i p.report q.report :=
  h.report.live (by rw [q.report_rest.2.2.1, h.session]) (by rw [p.report_rest.2.1, q.report_rest.2.1])
    p.report_rest.1 q.report_rest.1

theorem Live.report_leave (h : Live base i p q) : Agree base p.report q.leave :=
  h.ended_live (fun _ hms => ⟨_, Standing.report_messages base p hms, fun _ => cut_report⟩)
    (fun _ hns => ⟨_, Standing.leave_messages base q hns, fun _ => cut_leave⟩)
    (by rw [p.report_rest.2.2.2.1, q.leave_rest.2.2.1, h.resume])
    (by rw [p.report_rest.2.2.2.2, q.leave_rest.2.2.2, h.todos])

/-- The end in view of both. -/
theorem Live.finish_live (h : Live base i p q)
    (hmarks : (∀ t ∈ q.todos, t.done = true) ∨ (trim p.reply = [] → trim q.reply = [])) :
    Live base i p.finish q.finish := by
  have htodos : p.finish.todos = q.finish.todos := by
    rw [p.finish_rest.2.2.2.2, q.finish_rest.2.2.2.2, h.todos]
    rcases hmarks with hdone | hsame
    · rw [map_done hdone]
      split <;> split <;> rfl
    · by_cases hblank : trim p.reply = []
      · rw [if_pos hblank, if_pos (hsame hblank)]
      · rw [if_neg hblank, if_neg fun hnil => hblank (h.blank hnil)]
  have hagree := h.ended_live (fun _ hms => ⟨_, Standing.finish_messages base p hms, fun _ => cut_flush⟩)
    (fun _ hns => ⟨_, Standing.finish_messages base q hns, fun _ => cut_flush⟩)
    (by rw [p.finish_rest.2.2.2.1, q.finish_rest.2.2.2.1, h.resume]) htodos
  exact hagree.live (by rw [q.finish_rest.2.2.1, h.session]) (by rw [p.finish_rest.2.1, q.finish_rest.2.1])
    p.finish_rest.1 q.finish_rest.1

/-- The end in view of one, in the background of the other. -/
theorem Live.finish_leave (h : Live base i p q) (hmarks : (∀ t ∈ q.todos, t.done = true) ∨ trim p.reply = []) :
    Agree base p.finish q.leave := by
  have htodos : p.finish.todos = q.leave.todos := by
    rw [p.finish_rest.2.2.2.2, q.leave_rest.2.2.2, h.todos]
    rcases hmarks with hdone | hblank
    · rw [map_done hdone]
      split <;> rfl
    · rw [if_pos hblank]
  exact h.ended_live (fun _ hms => ⟨_, Standing.finish_messages base p hms, fun _ => cut_flush⟩)
    (fun _ hns => ⟨_, Standing.leave_messages base q hns, fun _ => cut_leave⟩)
    (by rw [p.finish_rest.2.2.2.1, q.leave_rest.2.2.1, h.resume]) htodos

/-- After a step in view what is left of the reply is white space. -/
theorem flush_blank (p : Standing) : trim p.flush.reply = [] := by
  rw [p.flush_rest.1]
  split
  next h => exact h
  · rfl

theorem flush_text {ms : List Message} {x : Content} (h : Cut ms x) :
    ∃ x', Cut (if trim p.reply = [] then ms else ms ++ [⟨.assistant, p.reply⟩]) x' ∧
      x' ++ p.flush.reply = x ++ p.reply := by
  rw [p.flush_rest.1]
  split
  · exact ⟨x, h, rfl⟩
  · exact ⟨x ++ p.reply, h.bubble p.reply, List.append_nil _⟩

theorem Live.status_live (h : Live base i p q) (label : Text) (tool : Option Text) :
    Live base i { p.flush with todos := addTodo label tool p.todos } { q.flush with todos := addTodo label tool q.todos } := by
  obtain ⟨ms, ns, x, y, hp, hq, hx, hy, htext⟩ := h.texts
  obtain ⟨x', hx', hxtext⟩ := flush_text (p := p) hx
  obtain ⟨y', hy', hytext⟩ := flush_text (p := q) hy
  refine ⟨?_, ?_, ⟨_, _, x', y', p.flush_messages base hp, q.flush_messages base hq, hx', hy', ?_⟩, ?_, ?_, ?_, ?_⟩
  · exact q.flush_rest.2.2.1.trans h.session
  · exact p.flush_rest.2.1.trans (h.streaming.trans q.flush_rest.2.1.symm)
  · dsimp only
    rw [hxtext, hytext, htext]
  · exact fun _ => flush_blank p
  · intro hended
    have hreply := h.ended (q.flush_rest.2.1.symm.trans hended)
    dsimp only
    rw [p.flush_rest.1, q.flush_rest.1, hreply]
  · exact p.flush_rest.2.2.2.1.trans (h.resume.trans q.flush_rest.2.2.2.1.symm)
  · exact congrArg (addTodo label tool) h.todos

/-- A step in view of one only: the other keeps its text as a reply. -/
theorem Live.status_away (h : Live base i p q) (hstream : q.streaming = true) (label : Text) (tool : Option Text) :
    Live base i { p.flush with todos := addTodo label tool p.todos } { q with todos := addTodo label tool q.todos } := by
  obtain ⟨ms, ns, x, y, hp, hq, hx, hy, htext⟩ := h.texts
  obtain ⟨x', hx', hxtext⟩ := flush_text (p := p) hx
  refine ⟨h.session, ?_, ⟨_, ns, x', y, p.flush_messages base hp, hq, hx', hy, ?_⟩, ?_, ?_, ?_, ?_⟩
  · exact p.flush_rest.2.1.trans h.streaming
  · dsimp only
    rw [hxtext, htext]
  · exact fun _ => flush_blank p
  · intro hended
    rw [show q.streaming = false from hended] at hstream
    cases hstream
  · exact p.flush_rest.2.2.2.1.trans h.resume
  · exact congrArg (addTodo label tool) h.todos

theorem Live.resumed (h : Live base i p q) (session : Text) :
    Live base i { p with resume := some session } { q with resume := some session } :=
  ⟨h.session, h.streaming, h.texts, h.blank, h.ended, rfl, h.todos⟩

/-- A chunk in view of both turns. -/
theorem Live.inView (h : Live base i p q) (c : AgentChunk) (hmarks : MarksAlike owner true c p q) :
    Live base i (Standing.inView owner c p) (Standing.inView owner c q) := by
  have hend : ∀ text ∈ c.ending, (∀ t ∈ q.todos, t.done = true) ∨
      (trim (p.reply ++ tag owner text) = [] → trim (q.reply ++ tag owner text) = []) := by
    intro text htext
    refine (hmarks text htext).imp_right fun hsame hblank => ?_
    rw [if_pos hblank] at hsame
    exact hsame rfl
  cases c with
  | delta text =>
    simp only [Standing.inView]
    split
    · exact h.report_live
    · exact h.add _
  | choice content stop =>
    cases stop with
    | false => exact h.add _
    | true => exact (h.add _).finish_live (hend _ rfl)
  | status label tool hl => exact h.status_live label tool
  | messageStart session => exact h.resumed session
  | error report hr => exact h.report_live
  | done =>
    have hdone := hend [] rfl
    rw [show tag owner [] = [] from rfl, List.append_nil, List.append_nil] at hdone
    exact h.finish_live hdone

/-- A chunk in view of one turn, in the background of the other. -/
theorem Live.away (h : Live base i p q) (hstream : q.streaming = true) (c : AgentChunk)
    (hmarks : MarksAlike owner false c p q) :
    Live base i (Standing.inView owner c p) (Standing.away owner c q) ∨
      Agree base (Standing.inView owner c p) (Standing.away owner c q) ∧ (Standing.away owner c q).session = none := by
  have hend : ∀ text ∈ c.ending, (∀ t ∈ q.todos, t.done = true) ∨ trim (p.reply ++ tag owner text) = [] := by
    intro text htext
    refine (hmarks text htext).imp_right fun hsame => ?_
    by_contra hblank
    rw [if_neg hblank] at hsame
    cases hsame
  cases c with
  | delta text =>
    simp only [Standing.inView, Standing.away]
    split
    · exact Or.inr ⟨h.report_leave, q.leave_rest.2.1⟩
    · exact Or.inl (h.add _)
  | choice content stop =>
    cases stop with
    | false => exact Or.inl (h.add _)
    | true => exact Or.inr ⟨(h.add _).finish_leave (hend _ rfl), (q.add _).leave_rest.2.1⟩
  | status label tool hl => exact Or.inl (h.status_away hstream label tool)
  | messageStart session => exact Or.inl (h.resumed session)
  | error report hr => exact Or.inr ⟨h.report_leave, q.leave_rest.2.1⟩
  | done =>
    have hdone := hend [] rfl
    rw [show tag owner [] = [] from rfl, List.append_nil] at hdone
    exact Or.inr ⟨h.finish_leave hdone, q.leave_rest.2.1⟩

/-- The resume id of a late `message_start` is still taken over in view. -/
def late (shown : Bool) (c : AgentChunk) (q : Standing) : Standing :=
  match c with
  | .messageStart session => if shown then { q with resume := some session } else q
  | _ => q

theorem Agree.same (h : Agree base p q) {p' : Standing} (hmessages : p'.messages = p.messages)
    (hresume : p'.resume = p.resume) (htodos : p'.todos = p.todos) : Agree base p' q := by
  obtain ⟨ms, ns, x, hp, hq, hx, hy⟩ := h.texts
  exact ⟨⟨ms, ns, x, hmessages.trans hp, hq, hx, hy⟩, hresume.trans h.resume, htodos.trans h.todos⟩

/-- An error in a turn with nothing but white space in its reply. -/
theorem Agree.report (h : Agree base p q) (hblank : trim p.reply = []) : Agree base p.report q := by
  obtain ⟨ms, ns, x, hp, hq, hx, hy⟩ := h.texts
  refine ⟨⟨_, ns, x ++ p.reply, p.report_messages base hp, hq, cut_report hx, ?_⟩, ?_, ?_⟩
  · exact hy.space ((trim_eq_nil_iff _).mp hblank)
  · exact p.report_rest.2.2.2.1.trans h.resume
  · exact p.report_rest.2.2.2.2.trans h.todos

theorem Agree.finish (h : Agree base p q) (hblank : trim p.reply = []) : Agree base p.finish q := by
  have hstop : p.finish = p.stop := if_pos hblank
  rw [hstop]
  exact h.same rfl rfl rfl

theorem Agree.inert (h : Agree base p q) (shown : Bool) (c : AgentChunk) (hinert : Inert owner shown p c) :
    Agree base (Standing.inView owner c p) (late shown c q) := by
  cases c with
  | delta text =>
    simp only [Standing.inView]
    split
    next herr => exact h.report (hinert herr)
    · exact h.same rfl rfl rfl
  | choice content stop =>
    cases stop with
    | false => exact h.same rfl rfl rfl
    | true =>
      have hadd : Agree base (p.add (tag owner (content.getD []))) q := h.same rfl rfl rfl
      exact hadd.finish (hinert rfl)
  | status label tool hl =>
    have hflush : p.flush = p := if_pos hinert.1
    refine h.same ?_ ?_ hinert.2
    · simp only [Standing.inView, hflush]
    · simp only [Standing.inView, hflush]
  | messageStart session =>
    cases shown with
    | true => exact ⟨h.texts, rfl, h.todos⟩
    | false =>
      have hresume : p.resume = some session := hinert.resolve_left Bool.false_ne_true
      exact h.same rfl hresume.symm rfl
  | error report hr => exact h.report hinert
  | done => exact h.finish hinert

/-- A turn left while it is on, or after its end. -/
theorem Live.left {q' : Standing} (h : Live base i p q) (hmessages : q'.messages = q.messages)
    (hresume : q'.resume = q.resume) (htodos : q'.todos = q.todos) (hended : q.streaming = false) : Agree base p q' := by
  obtain ⟨ms, ns, x, y, hp, hq, hx, hy, htext⟩ := h.texts
  rw [h.ended hended] at htext
  rw [List.append_cancel_right htext] at hx
  exact ⟨⟨ms, ns, y, hp, hmessages.trans hq, hx, hy⟩, h.resume.trans hresume.symm, h.todos.trans htodos.symm⟩

/-- Where the replies look alike the messages agree. -/
theorem Live.agree (h : Live base i p q) (hsame : visible q.reply = visible p.reply) : Agree base p q := by
  obtain ⟨ms, ns, x, y, hp, hq, hx, hy, htext⟩ := h.texts
  have hspaces : ∀ a b : Content, visible (a ++ b) = visible b → Spaces a := by
    intro a b hab
    rw [visible_append] at hab
    have hnil : visible a = [] := by simpa using hab
    intro g hg
    have hfilter := List.filter_eq_nil_iff.mp hnil g hg
    simpa using hfilter
  rcases List.append_eq_append_iff.mp htext with ⟨e, hye, hpe⟩ | ⟨e, hxe, hqe⟩
  · rw [hpe] at hsame
    rw [hye] at hy
    exact ⟨⟨ms, ns, _, hp, hq, hx.space (hspaces e _ hsame.symm), hy⟩, h.resume, h.todos⟩
  · rw [hqe] at hsame
    rw [hxe] at hx
    exact ⟨⟨ms, ns, _, hp, hq, hx, hy.space (hspaces e _ hsame)⟩, h.resume, h.todos⟩

end

end AgentWorkflow.Desktop.Chat
