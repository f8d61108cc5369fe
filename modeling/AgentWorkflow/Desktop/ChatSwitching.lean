import AgentWorkflow.Desktop.ChatStanding
import AgentWorkflow.Desktop.ChatMerge

/-!
# Switching away from a turn and back

The store keeps the standing of a turn in the view or in the thread. Every chunk of the
turn does to it what the ingester of the place does, and every switch leaves it as it
is; what the server answers to a switch back must bring nothing of its own.
-/

namespace AgentWorkflow.Desktop.Chat
open AgentWorkflow.Lib AgentWorkflow.Lib.Calendar

/-! ### The thread of the turn in the list -/

/-- `t` is the thread with its id; no other one has its conversation or its session. -/
structure Rooted (i : ℕ) (conv : ConvId) (t : Thread) (s : Store) : Prop where
  found : findThread t.id s = some t
  unique : RefsUnique s
  named : t.conversationId = some conv
  sole : ∀ u ∈ s.threads, u.ref ≠ t.ref → u.bgSession ≠ some i ∧ u.conversationId ≠ some conv

theorem findThread_update (id : ThreadId) (ref : ℕ) {f : Thread → Thread} (hf : ∀ t, (f t).id = t.id) (s : Store) :
    findThread id (update ref f s) = (findThread id s).map fun t => if t.ref = ref then f t else t := by
  have hsame : ((fun t : Thread => decide (t.id = id)) ∘ fun t => if t.ref = ref then f t else t) =
      fun t => decide (t.id = id) := by
    funext t
    simp only [Function.comp_apply]
    split
    · rw [hf]
    · rfl
  unfold findThread update
  rw [List.find?_map, hsame]

namespace Rooted
variable {i : ℕ} {conv : ConvId} {t : Thread} {s : Store}

theorem mem (h : Rooted i conv t s) : t ∈ s.threads := (findThread_some h.found).1

theorem eq_of_ref (h : Rooted i conv t s) {u : Thread} (hu : u ∈ s.threads) (href : u.ref = t.ref) : u = t :=
  h.unique.eq_threads hu h.mem href

theorem congr (h : Rooted i conv t s) {s' : Store} (hthreads : s'.threads = s.threads) (hdetached : s'.detached = s.detached) :
    Rooted i conv t s' := by
  refine ⟨?_, ?_, h.named, ?_⟩
  · unfold findThread
    rw [hthreads]
    exact h.found
  · unfold RefsUnique
    rw [hthreads, hdetached]
    exact h.unique
  · rw [hthreads]
    exact h.sole

/-- An assignment to the thread itself. -/
theorem update_self (h : Rooted i conv t s) {f : Thread → Thread} (hid : ∀ u, (f u).id = u.id) (href : ∀ u, (f u).ref = u.ref)
    (hconv : ∀ u, (f u).conversationId = u.conversationId) : Rooted i conv (f t) (update t.ref f s) := by
  refine ⟨?_, ?_, ?_, ?_⟩
  · rw [hid, findThread_update _ _ hid, h.found, Option.map_some, if_pos rfl]
  · have hrefs := map_update Thread.ref t.ref href s
    unfold RefsUnique
    rw [List.map_append, hrefs.1, hrefs.2, ← List.map_append]
    exact h.unique
  · rw [hconv]
    exact h.named
  · rw [href]
    intro u hu hne
    obtain ⟨v, hv, rfl⟩ := mem_update.mp hu
    by_cases hvt : v.ref = t.ref
    · rw [if_pos hvt, href] at hne
      exact absurd hvt hne
    · rw [if_neg hvt]
      exact h.sole v hv hvt

/-- An assignment to another thread. -/
theorem update_other (h : Rooted i conv t s) {ref : ℕ} (hne : ref ≠ t.ref) {f : Thread → Thread} (hid : ∀ u, (f u).id = u.id)
    (href : ∀ u, (f u).ref = u.ref)
    (hsole : ∀ u ∈ s.threads, u.ref = ref → (f u).bgSession ≠ some i ∧ (f u).conversationId ≠ some conv) :
    Rooted i conv t (update ref f s) := by
  refine ⟨?_, ?_, h.named, ?_⟩
  · rw [findThread_update _ _ hid, h.found, Option.map_some, if_neg hne.symm]
  · have hrefs := map_update Thread.ref ref href s
    unfold RefsUnique
    rw [List.map_append, hrefs.1, hrefs.2, ← List.map_append]
    exact h.unique
  · intro u hu hut
    obtain ⟨v, hv, rfl⟩ := mem_update.mp hu
    by_cases hvr : v.ref = ref
    · rw [if_pos hvr]
      exact hsole v hv hvr
    · rw [if_neg hvr] at hut ⊢
      exact h.sole v hv hut

theorem updateActive_self (h : Rooted i conv t s) (ha : s.activeId = t.id) (f : Thread → Thread) :
    updateActive f s = update t.ref f s := by
  unfold updateActive activeThread
  rw [ha, h.found]

theorem updateActive_other (h : Rooted i conv t s) (ha : s.activeId ≠ t.id) {f : Thread → Thread} (hid : ∀ u, (f u).id = u.id)
    (href : ∀ u, (f u).ref = u.ref) (hconv : ∀ u, (f u).conversationId = u.conversationId)
    (hsession : ∀ u, u.bgSession ≠ some i → (f u).bgSession ≠ some i) : Rooted i conv t (updateActive f s) := by
  unfold updateActive
  cases hactive : activeThread s with
  | none => exact h
  | some a =>
    obtain ⟨hmem, haid⟩ := activeThread_some hactive
    have hne : a.ref ≠ t.ref := by
      intro hr
      rw [h.eq_of_ref hmem hr] at haid
      exact ha haid.symm
    refine h.update_other hne hid href fun u hu hur => ?_
    have hold := h.sole u hu (hur.trans_ne hne)
    rw [hconv]
    exact ⟨hsession u hold.1, hold.2⟩

end Rooted

/-! ### Where the turn is kept -/

def ownView (t : Thread) (s : Store) : View :=
  if s.activeId = t.id then s.view
  else ⟨t.bgConv, t.messages, t.bgReply, t.isStreaming, if t.isStreaming then t.bgSession else none, t.panel⟩

def shownAs (v : View) (resume : Option Text) : Standing :=
  ⟨v.messages, v.reply, v.streaming, v.session, resume, v.panel.todos⟩

def standingOf (t : Thread) (s : Store) : Standing := shownAs (ownView t s) t.ccSessionId

def standing (id : ThreadId) (s : Store) : Standing :=
  match findThread id s with
  | some t => standingOf t s
  | none => shownAs .empty none

/-- The thread of the turn, in view with its conversation or away with its session. -/
structure Hosts (i : ℕ) (conv : ConvId) (t : Thread) (s : Store) : Prop extends Rooted i conv t s where
  bgConv : t.bgConv = none ∨ t.bgConv = some conv
  inView : s.activeId = t.id → s.view.conv = some conv ∧ t.bgSession ≠ some i
  away : s.activeId ≠ t.id → s.view.session ≠ some i ∧ (t.bgSession = some i → t.isStreaming = true)

/-- The thread of the turn and its standing after an operation. -/
def Reaches (i : ℕ) (conv : ConvId) (id : ThreadId) (s : Store) (p : Standing) : Prop :=
  ∃ t, t.id = id ∧ Hosts i conv t s ∧ standingOf t s = p

theorem Reaches.standing {i : ℕ} {conv : ConvId} {id : ThreadId} {s : Store} {p : Standing} (h : Reaches i conv id s p) :
    Chat.standing id s = p := by
  obtain ⟨t, rfl, hosts, hp⟩ := h
  unfold Chat.standing
  rw [hosts.found]
  exact hp

/-! ### Chunks in view -/

section
variable {i : ℕ} {conv : ConvId} {t : Thread} {s : Store}

theorem shown_report (err : ErrorInfo) (s : Store) (resume : Option Text) :
    shownAs (ingestError err s).view resume = (shownAs s.view resume).report ∧
      (ingestError err s).view.conv = s.view.conv := by
  by_cases hreply : s.view.reply = []
  · simp [ingestError, hreply, shownAs, Standing.report, Standing.stop]
  · simp [ingestError, hreply, shownAs, Standing.report, Standing.stop, Standing.bubble, commitReply]

theorem shown_status (label : Text) (tool : Option Text) (s : Store) (resume : Option Text) :
    shownAs (ingestStatus label tool s).view resume =
        { (shownAs s.view resume).flush with todos := addTodo label tool s.view.panel.todos } ∧
      (ingestStatus label tool s).view.conv = s.view.conv := by
  by_cases hreply : trim s.view.reply = []
  · simp [ingestStatus, hreply, shownAs, Standing.flush]
  · simp [ingestStatus, hreply, shownAs, Standing.flush, Standing.bubble, commitReply]

theorem shown_finish (now : Text) (s : Store) (resume : Option Text) :
    shownAs (finishActive now s).view resume = (shownAs s.view resume).finish ∧
      (finishActive now s).view.conv = s.view.conv := by
  by_cases hreply : trim s.view.reply = []
  · simp [finishActive, hreply, shownAs, Standing.finish, Standing.stop]
  · simp [finishActive, hreply, shownAs, Standing.finish, Standing.stop, Standing.bubble]

theorem Rooted.ingestError (h : Rooted i conv t s) (err : ErrorInfo) : Rooted i conv t (ingestError err s) := by
  unfold Chat.ingestError
  dsimp only
  split
  · exact h.congr rfl rfl
  · unfold commitReply persistBubble
    dsimp only
    split
    · exact h.congr rfl rfl
    · split <;> exact h.congr rfl rfl

theorem Rooted.ingestStatus (h : Rooted i conv t s) (label : Text) (tool : Option Text) :
    Rooted i conv t (ingestStatus label tool s) := by
  unfold Chat.ingestStatus
  dsimp only
  split
  · exact h.congr rfl rfl
  · unfold commitReply persistBubble
    dsimp only
    split
    · exact h.congr rfl rfl
    · split <;> exact h.congr rfl rfl

theorem Rooted.persistBubble (h : Rooted i conv t s) (c : Option ConvId) (content : Content) :
    Rooted i conv t (persistBubble c content s) := by
  unfold Chat.persistBubble
  split
  · exact h
  · split
    · exact h
    · exact h.congr rfl rfl

theorem Rooted.syncThreadMessages (h : Rooted i conv t s) (ha : s.activeId = t.id) (now : Text) :
    Rooted i conv { t with messages := s.view.messages, updatedAt := now } (syncThreadMessages now s) := by
  have hself : Rooted i conv { t with messages := s.view.messages, updatedAt := now }
      (update t.ref (fun u => { u with messages := s.view.messages, updatedAt := now }) s) := by
    refine h.update_self (f := fun u : Thread => { u with messages := s.view.messages, updatedAt := now }) ?_ ?_ ?_
    all_goals
      intro u
      rfl
  unfold Chat.syncThreadMessages
  rw [h.updateActive_self ha]
  exact hself.congr rfl rfl

/-- Only the messages and the time of the thread in view are written. -/
theorem Rooted.finishActive (h : Rooted i conv t s) (ha : s.activeId = t.id) (now : Text) :
    ∃ ms u, Rooted i conv { t with messages := ms, updatedAt := u } (finishActive now s) := by
  unfold Chat.finishActive
  dsimp only
  split
  · exact ⟨t.messages, t.updatedAt, h.congr rfl rfl⟩
  · refine ⟨_, now, Rooted.persistBubble (Rooted.syncThreadMessages ?_ ?_ now) _ _⟩
    · exact h.congr rfl rfl
    · exact ha

/-- What is in view stays in view, whatever became of the thread's messages. -/
theorem Hosts.shown (h : Hosts i conv t s) (ha : s.activeId = t.id) {t' : Thread} {s' : Store} (hr : Rooted i conv t' s')
    (hid : t'.id = t.id) (hbg : t'.bgConv = t.bgConv) (hsession : t'.bgSession = t.bgSession) (hactive : s'.activeId = s.activeId)
    (hconv : s'.view.conv = some conv) : Reaches i conv t.id s' (shownAs s'.view t'.ccSessionId) := by
  have ha' : s'.activeId = t'.id := by rw [hactive, hid, ha]
  refine ⟨t', hid, ⟨hr, ?_, ?_, ?_⟩, ?_⟩
  · rw [hbg]
    exact h.bgConv
  · intro _
    rw [hsession]
    exact ⟨hconv, (h.inView ha).2⟩
  · exact fun hne => absurd ha' hne
  · unfold standingOf ownView
    rw [if_pos ha']

theorem standingOf_shown (ha : s.activeId = t.id) : standingOf t s = shownAs s.view t.ccSessionId := by
  unfold standingOf ownView
  rw [if_pos ha]

theorem reaches_report (h : Hosts i conv t s) (ha : s.activeId = t.id) (err : ErrorInfo) :
    Reaches i conv t.id (ingestError err s) (standingOf t s).report := by
  have hshown := shown_report err s t.ccSessionId
  rw [standingOf_shown ha, ← hshown.1]
  exact h.shown ha (h.toRooted.ingestError err) rfl rfl rfl (frame_ingestError (g := ident) err s).activeId
    (hshown.2.trans (h.inView ha).1)

theorem reaches_finish (h : Hosts i conv t s) (ha : s.activeId = t.id) (now : Text) :
    Reaches i conv t.id (finishActive now s) (standingOf t s).finish := by
  have hshown := shown_finish now s t.ccSessionId
  obtain ⟨ms, u, hr⟩ := h.toRooted.finishActive ha now
  have hreach := h.shown ha hr rfl rfl rfl (frame_finishActive (g := ident) now s).activeId
    (hshown.2.trans (h.inView ha).1)
  rw [standingOf_shown ha, ← hshown.1]
  exact hreach

/-- More text for the reply in view. -/
theorem hosts_withReply (h : Hosts i conv t s) (ha : s.activeId = t.id) (text : Content) :
    Hosts i conv t (withReply (s.view.reply ++ text) s) ∧
      standingOf t (withReply (s.view.reply ++ text) s) = (standingOf t s).add text := by
  have ha' : (withReply (s.view.reply ++ text) s).activeId = t.id := ha
  refine ⟨⟨h.toRooted.congr rfl rfl, h.bgConv, fun _ => h.inView ha, fun hne => absurd ha hne⟩, ?_⟩
  rw [standingOf_shown ha, standingOf_shown ha']
  rfl

/-- The resume id goes to the thread with the conversation. -/
theorem pinSession_start (h : Rooted i conv t s) (session : Text) :
    pinSession (AgentChunk.chunk conv (.messageStart session)) s =
      if t.ccSessionId = some session then s
      else persist (update t.ref (fun u => { u with ccSessionId := some session }) s) := by
  have hnamed : s.threads.find? (fun u => decide (u.conversationId = some conv)) = some t := by
    cases hfind : s.threads.find? fun u => decide (u.conversationId = some conv) with
    | none => exact absurd (List.find?_eq_none.mp hfind t h.mem) (by simp [h.named])
    | some u =>
      have hu := List.mem_of_find?_eq_some hfind
      have hconv : u.conversationId = some conv := by simpa using List.find?_some hfind
      by_cases href : u.ref = t.ref
      · rw [h.eq_of_ref hu href]
      · exact absurd hconv (h.sole u hu href).2
  simp only [pinSession, AgentChunk.chunk, Option.bind_some, hnamed, Option.some_or]

theorem Rooted.pinSession (h : Rooted i conv t s) (session : Text) :
    Rooted i conv { t with ccSessionId := some session }
      (pinSession (AgentChunk.chunk conv (.messageStart session)) s) := by
  rw [pinSession_start h]
  split
  next hsame =>
    rw [← hsame]
    exact h
  · have hself : Rooted i conv { t with ccSessionId := some session }
        (update t.ref (fun u => { u with ccSessionId := some session }) s) := by
      refine h.update_self (f := fun u : Thread => { u with ccSessionId := some session }) ?_ ?_ ?_
      all_goals
        intro u
        rfl
    exact hself.congr rfl rfl

theorem view_pinSession_start (h : Rooted i conv t s) (session : Text) :
    (pinSession (AgentChunk.chunk conv (.messageStart session)) s).view = s.view ∧
      (pinSession (AgentChunk.chunk conv (.messageStart session)) s).activeId = s.activeId := by
  rw [pinSession_start h]
  split <;> exact ⟨rfl, rfl⟩

/-- `message_start` as the active ingester takes it. -/
theorem ingestActive_start (owner : ThreadId) (session now : Text) (s : Store) :
    ingestActive owner (AgentChunk.chunk conv (.messageStart session)) now s =
      pinSession (AgentChunk.chunk conv (.messageStart session))
        { s with view := { s.view with conv := s.view.conv.or (some conv) } } := by
  have hnone : extractErrorChunk (AgentChunk.chunk conv (.messageStart session)) = none := rfl
  simp only [ingestActive, hnone]
  simp [AgentChunk.chunk, Chunk.empty, Chunk.text, Chunk.finished, tag]

/-- Every chunk in view of its thread. -/
theorem reaches_inView (h : Hosts i conv t s) (ha : s.activeId = t.id) (owner : ThreadId) (c : AgentChunk) (now : Text) :
    Reaches i conv t.id (ingestActive owner (c.chunk conv) now s) (Standing.inView owner c (standingOf t s)) := by
  cases c with
  | delta text =>
    simp only [AgentChunk.chunk, Standing.inView]
    cases herr : errorCode text with
    | none =>
      rw [ingestActive_delta herr]
      have hadd := hosts_withReply h ha (tag owner text)
      exact ⟨t, rfl, hadd.1, hadd.2⟩
    | some err =>
      simp only [ingestActive, extractErrorChunk_delta, herr]
      exact reaches_report h ha err
  | choice content stop =>
    have hadd := hosts_withReply h ha (tag owner (content.getD []))
    have hpin : ∀ u : Store, pinSession (AgentChunk.chunk conv (.choice content stop)) u = u := fun u => rfl
    have hstep : ingestActive owner (AgentChunk.chunk conv (.choice content stop)) now s =
        if stop then finishActive now (withReply (s.view.reply ++ tag owner (content.getD [])) s)
        else withReply (s.view.reply ++ tag owner (content.getD [])) s := by
      have hnone : extractErrorChunk (AgentChunk.chunk conv (.choice content stop)) = none := rfl
      simp only [ingestActive, hnone, hpin]
      simp [AgentChunk.chunk, Chunk.empty, Chunk.text, Chunk.finished, withReply]
    rw [hstep]
    cases stop with
    | false => exact ⟨t, rfl, hadd.1, hadd.2⟩
    | true =>
      have hfinish := reaches_finish hadd.1 ha now
      rw [hadd.2] at hfinish
      exact hfinish
  | status label tool hl =>
    have hstep : ingestActive owner (AgentChunk.chunk conv (.status label tool hl)) now s = ingestStatus label tool s := by
      have hnone : extractErrorChunk (AgentChunk.chunk conv (.status label tool hl)) = none := rfl
      simp only [ingestActive, hnone]
      simp [AgentChunk.chunk, hl]
    have hshown := shown_status label tool s t.ccSessionId
    have hreach := h.shown ha (h.toRooted.ingestStatus label tool) rfl rfl rfl
      (frame_ingestStatus (g := ident) label tool s).activeId (hshown.2.trans (h.inView ha).1)
    rw [hshown.1] at hreach
    rw [hstep, standingOf_shown ha]
    exact hreach
  | messageStart session =>
    have hr : Rooted i conv t { s with view := { s.view with conv := s.view.conv.or (some conv) } } := h.toRooted.congr rfl rfl
    have hview := view_pinSession_start hr session
    have hconv : s.view.conv.or (some conv) = some conv := by
      rw [(h.inView ha).1]
      rfl
    have hreach := h.shown ha (hr.pinSession session) rfl rfl rfl hview.2 (by rw [hview.1]; exact hconv)
    rw [hview.1] at hreach
    rw [ingestActive_start, standingOf_shown ha]
    exact hreach
  | error report hr =>
    obtain ⟨err, herr⟩ := Option.isSome_iff_exists.mp hr.report
    simp only [AgentChunk.chunk, ingestActive, herr]
    exact reaches_report h ha err
  | done =>
    simp only [AgentChunk.chunk]
    rw [ingestActive_done]
    exact reaches_finish h ha now

end

/-! ### Chunks in the background -/

section
variable {i : ℕ} {conv : ConvId} {t : Thread} {s : Store}

/-- A thread that is not in view, as a view. -/
def parked (t : Thread) : View :=
  ⟨t.bgConv, t.messages, t.bgReply, t.isStreaming, if t.isStreaming then t.bgSession else none, t.panel⟩

theorem standingOf_parked (ha : s.activeId ≠ t.id) : standingOf t s = shownAs (parked t) t.ccSessionId := by
  unfold standingOf ownView
  rw [if_neg ha]
  rfl

theorem Hosts.hidden (h : Hosts i conv t s) (ha : s.activeId ≠ t.id) {t' : Thread} {s' : Store} (hr : Rooted i conv t' s')
    (hid : t'.id = t.id) (hbg : t'.bgConv = none ∨ t'.bgConv = some conv)
    (hstream : t'.bgSession = some i → t'.isStreaming = true) (hactive : s'.activeId = s.activeId)
    (hsession : s'.view.session = s.view.session) : Reaches i conv t.id s' (shownAs (parked t') t'.ccSessionId) := by
  have ha' : s'.activeId ≠ t'.id := by
    rw [hactive, hid]
    exact ha
  refine ⟨t', hid, ⟨hr, hbg, fun heq => absurd heq ha', fun _ => ⟨?_, hstream⟩⟩, standingOf_parked ha'⟩
  rw [hsession]
  exact (h.away ha).1

theorem reaches_leave (h : Hosts i conv t s) (ha : s.activeId ≠ t.id) (now : Text) :
    Reaches i conv t.id (finishBackground t now s) (standingOf t s).leave := by
  let s₁ := if trim t.bgReply = [] then s else persistBubble t.bgConv (trim t.bgReply) s
  have hr₁ : Rooted i conv t s₁ := by
    by_cases hnil : trim t.bgReply = []
    · simp only [s₁, if_pos hnil]
      exact h.toRooted
    · simp only [s₁, if_neg hnil]
      exact h.toRooted.persistBubble _ _
  have hview : s₁.view = s.view ∧ s₁.activeId = s.activeId := by
    by_cases hnil : trim t.bgReply = []
    · simp [s₁, hnil]
    · simp [s₁, hnil, (frame_persistBubble (g := ident) t.bgConv (trim t.bgReply) s).activeId]
  let f : Thread → Thread := fun u =>
    { u with
      messages := if trim u.bgReply = [] then u.messages else u.messages ++ [⟨.assistant, trim u.bgReply⟩]
      bgReply := [], isStreaming := false, bgSession := none, bgConv := none, updatedAt := now }
  have hr : Rooted i conv (f t) (update t.ref f s₁) := hr₁.update_self (fun _ => rfl) (fun _ => rfl) (fun _ => rfl)
  have hr' : Rooted i conv (f t) (finishBackground t now s) := hr.congr rfl rfl
  have hreach := h.hidden ha hr' rfl (Or.inl rfl) (fun h => nomatch h) hview.2 (congrArg View.session hview.1)
  have hleave : (standingOf t s).leave = shownAs (parked (f t)) (f t).ccSessionId := by
    rw [standingOf_parked ha]
    by_cases hnil : trim t.bgReply = []
    · simp [f, parked, shownAs, Standing.leave, Standing.stop, hnil]
    · simp [f, parked, shownAs, Standing.leave, Standing.stop, Standing.bubble, hnil]
  rw [hleave]
  exact hreach

/-- An assignment to the thread in the background. -/
theorem hosts_update (h : Hosts i conv t s) (ha : s.activeId ≠ t.id) {f : Thread → Thread} (hid : ∀ u, (f u).id = u.id)
    (href : ∀ u, (f u).ref = u.ref) (hconv : ∀ u, (f u).conversationId = u.conversationId) (hbg : ∀ u, (f u).bgConv = u.bgConv)
    (hstream : ∀ u, (f u).bgSession = u.bgSession ∧ (f u).isStreaming = u.isStreaming) :
    Hosts i conv (f t) (update t.ref f s) := by
  have ha' : (update t.ref f s).activeId ≠ (f t).id := by
    rw [hid]
    exact ha
  refine ⟨h.toRooted.update_self hid href hconv, ?_, fun heq => absurd heq ha', fun _ => ⟨(h.away ha).1, ?_⟩⟩
  · rw [hbg]
    exact h.bgConv
  · rw [(hstream t).1, (hstream t).2]
    exact (h.away ha).2

def longer (text : Content) (t : Thread) : Thread := { t with bgReply := t.bgReply ++ text }

/-- More text for the reply in the background. -/
theorem hosts_longer (h : Hosts i conv t s) (ha : s.activeId ≠ t.id) (text : Content) :
    Hosts i conv (longer text t) (update t.ref (longer text) s) ∧
      standingOf (longer text t) (update t.ref (longer text) s) = (standingOf t s).add text := by
  have ha' : (update t.ref (longer text) s).activeId ≠ (longer text t).id := ha
  refine ⟨hosts_update h ha (fun _ => rfl) (fun _ => rfl) (fun _ => rfl) (fun _ => rfl) (fun _ => ⟨rfl, rfl⟩), ?_⟩
  rw [standingOf_parked ha, standingOf_parked ha']
  rfl

/-- Every chunk in the background. -/
theorem reaches_away (h : Hosts i conv t s) (ha : s.activeId ≠ t.id) (owner : ThreadId) (c : AgentChunk) (now : Text) :
    Reaches i conv t.id (ingestBackground owner (c.chunk conv) t now s) (Standing.away owner c (standingOf t s)) := by
  cases c with
  | delta text =>
    have hmore := hosts_longer h ha (tag owner text)
    have hstep : ingestBackground owner (AgentChunk.chunk conv (.delta text)) t now s =
        if (errorCode text).isSome then finishBackground t now s else update t.ref (longer (tag owner text)) s := rfl
    rw [hstep]
    simp only [Standing.away]
    split
    · exact reaches_leave h ha now
    · exact ⟨longer (tag owner text) t, rfl, hmore.1, hmore.2⟩
  | choice content stop =>
    have hmore := hosts_longer h ha (tag owner (content.getD []))
    have hstep : ingestBackground owner (AgentChunk.chunk conv (.choice content stop)) t now s =
        if stop then finishBackground (longer (tag owner (content.getD [])) t) now
          (update t.ref (longer (tag owner (content.getD []))) s)
        else update t.ref (longer (tag owner (content.getD []))) s := by
      cases stop <;> rfl
    rw [hstep]
    cases stop with
    | false => exact ⟨longer (tag owner (content.getD [])) t, rfl, hmore.1, hmore.2⟩
    | true =>
      have hleave := reaches_leave hmore.1 ha now
      rw [hmore.2] at hleave
      exact hleave
  | status label tool hl =>
    let f : Thread → Thread := fun u =>
      { u with panel := { u.panel with status := label, todos := addTodo label tool u.panel.todos } }
    have hstep : ingestBackground owner (AgentChunk.chunk conv (.status label tool hl)) t now s = update t.ref f s := by
      simp [ingestBackground, AgentChunk.chunk, hl, f]
    have hosts : Hosts i conv (f t) (update t.ref f s) :=
      hosts_update h ha (fun _ => rfl) (fun _ => rfl) (fun _ => rfl) (fun _ => rfl) (fun _ => ⟨rfl, rfl⟩)
    have hstanding : standingOf (f t) (update t.ref f s) = Standing.away owner (.status label tool hl) (standingOf t s) := by
      have ha' : (update t.ref f s).activeId ≠ (f t).id := ha
      rw [standingOf_parked ha, standingOf_parked ha']
      rfl
    rw [hstep]
    exact ⟨f t, rfl, hosts, hstanding⟩
  | messageStart session =>
    have hstep : ingestBackground owner (AgentChunk.chunk conv (.messageStart session)) t now s =
        if t.ccSessionId = some session then s
        else persist (update t.ref (fun u => { u with ccSessionId := some session }) s) := rfl
    rw [hstep, standingOf_parked ha]
    split
    next hsame =>
      refine ⟨t, rfl, h, ?_⟩
      rw [standingOf_parked ha, hsame]
      rfl
    · have hself : Rooted i conv { t with ccSessionId := some session }
          (update t.ref (fun u => { u with ccSessionId := some session }) s) := by
        refine h.toRooted.update_self (f := fun u : Thread => { u with ccSessionId := some session }) ?_ ?_ ?_
        all_goals
          intro u
          rfl
      have hr : Rooted i conv { t with ccSessionId := some session }
          (persist (update t.ref (fun u => { u with ccSessionId := some session }) s)) := hself.congr rfl rfl
      have hreach := h.hidden ha hr rfl h.bgConv (h.away ha).2 rfl rfl
      exact hreach
  | error report hr =>
    have hstep : ingestBackground owner (AgentChunk.chunk conv (.error report hr)) t now s = finishBackground t now s := by
      have hstart := hr.start
      simp only [ingestBackground, AgentChunk.chunk, if_neg hr.status, hr.report, if_true]
      split
      next htype _ => exact absurd htype hstart
      · rfl
    rw [hstep]
    exact reaches_leave h ha now
  | done =>
    have hmore := hosts_longer h ha []
    have hsame : (standingOf t s).add [] = standingOf t s := by simp [Standing.add]
    have hstep : ingestBackground owner (AgentChunk.chunk conv .done) t now s =
        finishBackground (longer [] t) now (update t.ref (longer []) s) := rfl
    have hleave := reaches_leave hmore.1 ha now
    rw [hmore.2, hsame] at hleave
    rw [hstep]
    exact hleave

end

end AgentWorkflow.Desktop.Chat
