import AgentWorkflow.Desktop.ChatSwitching
import AgentWorkflow.Desktop.ChatMerge

/-!
# A turn with switches and the turn without them

Leaving the thread of a turn writes the standing of the turn to the thread, and coming
back takes it from there. The same chunks then reach one store in which the thread is
always in view and one in which other threads are selected in between.
-/

namespace AgentWorkflow.Desktop.Chat
open AgentWorkflow.Lib AgentWorkflow.Lib.Calendar

/-! ### Leaving a thread -/

section
variable {i : ℕ} {conv : ConvId} {t : Thread} {s : Store}

theorem Rooted.updateActive_own (h : Rooted i conv t s) (ha : s.activeId = t.id) {f : Thread → Thread}
    (hid : ∀ u, (f u).id = u.id) (href : ∀ u, (f u).ref = u.ref) (hconv : ∀ u, (f u).conversationId = u.conversationId) :
    Rooted i conv (f t) (updateActive f s) := by
  rw [h.updateActive_self ha]
  exact h.update_self hid href hconv

/-- A stream in view, written to its thread. -/
def detached (v : View) (t : Thread) : Thread :=
  if v.streaming then
    { t with isStreaming := true, bgReply := v.reply, bgSession := v.session.or t.bgSession, bgConv := v.conv }
  else t

def leftAs (v : View) (t : Thread) : Thread := { detached v t with messages := v.messages, panel := v.panel }

theorem detached_same (v : View) (t : Thread) :
    (detached v t).id = t.id ∧ (detached v t).ref = t.ref ∧ (detached v t).conversationId = t.conversationId ∧
      (detached v t).ccSessionId = t.ccSessionId := by
  unfold detached
  split <;> exact ⟨rfl, rfl, rfl, rfl⟩

theorem Rooted.detach (h : Rooted i conv t s) (ha : s.activeId = t.id) :
    Rooted i conv (detached s.view t) (detachActiveStream s) := by
  unfold detachActiveStream detached
  split
  · refine h.updateActive_own (f := fun u : Thread => { u with
      isStreaming := true, bgReply := s.view.reply, bgSession := s.view.session.or u.bgSession, bgConv := s.view.conv }) ha
      ?_ ?_ ?_
    all_goals
      intro u
      rfl
  · exact h

theorem Rooted.leave_own (h : Rooted i conv t s) (ha : s.activeId = t.id) : Rooted i conv (leftAs s.view t) (leave s) := by
  have hd := frame_detachActiveStream (g := ident) s
  have hsame := detached_same s.view t
  have hview : (detachActiveStream s).view = s.view := view_detachActiveStream s
  have ha₁ : (detachActiveStream s).activeId = (detached s.view t).id := by rw [hd.activeId, ha, hsame.1]
  have h₁ : Rooted i conv { detached s.view t with messages := s.view.messages }
      (updateActive (fun u => { u with messages := (detachActiveStream s).view.messages }) (detachActiveStream s)) := by
    rw [hview]
    refine (h.detach ha).updateActive_own (f := fun u : Thread => { u with messages := s.view.messages }) ha₁ ?_ ?_ ?_
    all_goals
      intro u
      rfl
  have hm : Frame ident (detachActiveStream s)
      (updateActive (fun u => { u with messages := (detachActiveStream s).view.messages }) (detachActiveStream s)) :=
    .updateActive (by intro u; rfl) _
  unfold leave parkConversationState
  rw [view_updateActive, hview]
  rw [hview] at h₁ hm
  refine h₁.updateActive_own (f := fun u : Thread => { u with panel := s.view.panel }) (hm.activeId.trans ha₁) ?_ ?_ ?_
  all_goals
    intro u
    rfl

/-- Leaving another thread does not touch this one. -/
theorem Rooted.leave_other (h : Rooted i conv t s) (ha : s.activeId ≠ t.id) (hsession : s.view.session ≠ some i) :
    Rooted i conv t (leave s) := by
  have hd := frame_detachActiveStream (g := ident) s
  have h₁ : Rooted i conv t (detachActiveStream s) := by
    unfold detachActiveStream
    split
    · refine h.updateActive_other ha (fun _ => rfl) (fun _ => rfl) (fun _ => rfl) fun u hu heq => ?_
      rcases Option.or_eq_some_iff.mp heq with hv | ⟨-, hb⟩
      · exact hsession hv
      · exact hu hb
    · exact h
  have ha₁ : (detachActiveStream s).activeId ≠ t.id := by
    rw [hd.activeId]
    exact ha
  have hm : Frame ident (detachActiveStream s)
      (updateActive (fun u => { u with messages := (detachActiveStream s).view.messages }) (detachActiveStream s)) :=
    .updateActive (by intro u; rfl) _
  unfold leave parkConversationState
  refine Rooted.updateActive_other ?_ ?_ (fun _ => rfl) (fun _ => rfl) (fun _ => rfl) (fun _ hu => hu)
  · exact h₁.updateActive_other ha₁ (fun _ => rfl) (fun _ => rfl) (fun _ => rfl) (fun _ hu => hu)
  · rw [hm.activeId]
    exact ha₁

end

/-! ### Selecting a thread -/

/-- `selectThread` with its answer, nothing in between. -/
def switchTo (id : ThreadId) (fresh : ConvId) (answer : Option Conversation) (s : Store) : Store :=
  if s.activeId = id then s
  else selectResolved id (selectThread id fresh s).1 answer (selectThread id fresh s).2

/-- The answer brings nothing that the thread has not. -/
def Quiet (t : Thread) (answer : Option Conversation) : Prop :=
  match cloudWins (some t) answer with
  | none => mergedSession t answer = t.ccSessionId
  | some ms => tagged t.id ms = t.messages ∧
      mergedSession { t with messages := tagged t.id ms, updatedAt := (answer.bind Conversation.updatedAt).getD t.updatedAt }
        answer = t.ccSessionId

section
variable {i : ℕ} {conv : ConvId} {t : Thread} {s : Store}

theorem unpark_same (t : Thread) : (unpark t).id = t.id ∧ (unpark t).ref = t.ref ∧
    (unpark t).conversationId = t.conversationId := by
  unfold unpark
  split <;> exact ⟨rfl, rfl, rfl⟩

theorem Rooted.finish_other (h : Rooted i conv t s) {u : Option Thread} (hne : ∀ v ∈ u, v.ref ≠ t.ref) (id : ThreadId)
    (answer : Option Conversation) (before : Option Thread) (ms : List Message) :
    Rooted i conv t (selectResolved.finish id answer before u ms s) := by
  unfold selectResolved.finish
  cases u with
  | none => exact h.congr rfl rfl
  | some v =>
    have hv := hne v rfl
    have hsession : Rooted i conv t (if mergedSession v answer = v.ccSessionId then s
        else persist (update v.ref (fun t => { t with ccSessionId := mergedSession v answer }) s)) := by
      split
      · exact h
      · have hset := h.update_other hv (f := fun u : Thread => { u with ccSessionId := mergedSession v answer })
          (by intro u; rfl) (by intro u; rfl) fun u hu hur => h.sole u hu (hur.trans_ne hv)
        exact hset.congr rfl rfl
    refine Rooted.congr (hsession.update_other hv (f := unpark) (fun u => (unpark_same u).1) (fun u => (unpark_same u).2.1) ?_)
      rfl rfl
    intro u hu hur
    have hold := hsession.sole u hu (hur.trans_ne hv)
    rw [(unpark_same u).2.2]
    refine ⟨?_, hold.2⟩
    unfold unpark
    split
    · exact fun hnone => by cases hnone
    · exact hold.1

theorem lookup_ref {ref : ℕ} {u : Thread} (h : lookup ref s = some u) : u.ref = ref := by
  simpa using List.find?_some h

theorem Rooted.selectResolved_other (h : Rooted i conv t s) {target : Option ℕ} (hne : ∀ ref ∈ target, ref ≠ t.ref)
    (id : ThreadId) (answer : Option Conversation) : Rooted i conv t (selectResolved id target answer s) := by
  have hfound : ∀ v ∈ target.bind fun ref => lookup ref s, v.ref ≠ t.ref := by
    intro v hv
    obtain ⟨ref, href, hlookup⟩ := Option.bind_eq_some_iff.mp hv
    rw [lookup_ref hlookup]
    exact hne ref href
  unfold selectResolved
  dsimp only
  split
  · refine Rooted.finish_other ?_ ?_ id answer _ _
    · cases target with
      | none => exact h
      | some ref =>
        have href := hne ref rfl
        exact h.update_other href (fun _ => rfl) (fun _ => rfl) fun u hu hur => h.sole u hu (hur.trans_ne href)
    · intro v hv
      obtain ⟨w, hw, rfl⟩ := Option.map_eq_some_iff.mp hv
      exact hfound w hw
  · exact h.finish_other hfound id answer _ _

/-- The thread after a quiet answer: only its time may have changed. -/
theorem Rooted.selectResolved_own (h : Rooted i conv t s) {answer : Option Conversation} (hquiet : Quiet t answer) :
    ∃ w, Rooted i conv (unpark { t with updatedAt := w }) (selectResolved t.id (some t.ref) answer s) := by
  have hlookup := h.unique.lookup h.mem
  have hunpark : ∀ (u : Thread) (r : Store), Rooted i conv u r → u.ref = t.ref → mergedSession u answer = u.ccSessionId →
      ∀ (before : Option Thread) (ms : List Message),
        Rooted i conv (unpark u) (selectResolved.finish t.id answer before (some u) ms r) := by
    intro u r hr href hsame before ms
    unfold selectResolved.finish
    dsimp only
    rw [if_pos hsame]
    exact Rooted.congr (hr.update_self (fun v => (unpark_same v).1) (fun v => (unpark_same v).2.1) fun v => (unpark_same v).2.2)
      rfl rfl
  unfold Quiet at hquiet
  unfold selectResolved
  simp only [Option.bind_some, hlookup]
  cases hwins : cloudWins (some t) answer with
  | none =>
    rw [hwins] at hquiet
    exact ⟨t.updatedAt, hunpark t s h rfl hquiet _ _⟩
  | some ms =>
    rw [hwins] at hquiet
    have hmerged : Rooted i conv
        { t with messages := tagged t.id ms, updatedAt := (answer.bind Conversation.updatedAt).getD t.updatedAt }
        (update t.ref (fun u => { u with
          messages := tagged t.id ms, updatedAt := (answer.bind Conversation.updatedAt).getD u.updatedAt }) s) := by
      refine h.update_self (f := fun u : Thread => { u with
        messages := tagged t.id ms, updatedAt := (answer.bind Conversation.updatedAt).getD u.updatedAt }) ?_ ?_ ?_
      all_goals
        intro u
        rfl
    have hresult := hunpark _ _ hmerged rfl hquiet.2 (some t) (tagged t.id ms)
    refine ⟨(answer.bind Conversation.updatedAt).getD t.updatedAt, ?_⟩
    dsimp only [Option.map_some]
    rw [hquiet.1] at hresult ⊢
    exact hresult

theorem ensureConvId_lookup {u : Thread} (hlookup : lookup u.ref s = some u) (fresh : ConvId) :
    ∃ u', lookup u.ref (ensureConvId u fresh s).2 = some u' ∧ u'.bgSession = u.bgSession := by
  unfold ensureConvId
  cases u.conversationId with
  | some c => exact ⟨u, hlookup, rfl⟩
  | none =>
    refine ⟨{ u with conversationId := some fresh }, ?_, rfl⟩
    refine (lookup_update u.ref ?_ s).trans ?_
    · intro v
      rfl
    · rw [hlookup]
      rfl

theorem Rooted.ensureConvId (h : Rooted i conv t s) {u : Thread} (hne : u.ref ≠ t.ref) {fresh : ConvId} (hfresh : fresh ≠ conv) :
    Rooted i conv t (ensureConvId u fresh s).2 := by
  unfold Chat.ensureConvId
  cases u.conversationId with
  | some c => exact h
  | none =>
    have hset := h.update_other hne (f := fun v : Thread => { v with conversationId := some fresh })
      (by intro v; rfl) (by intro v; rfl) fun v hv hvr =>
        ⟨(h.sole v hv (hvr.trans_ne hne)).1, fun heq => hfresh (Option.some.inj heq)⟩
    exact hset.congr rfl rfl

/-- Another thread is selected. -/
theorem Rooted.select_other (h : Rooted i conv t (leave s)) {id : ThreadId} (hid : id ≠ t.id) {fresh : ConvId}
    (hfresh : fresh ≠ conv) (answer : Option Conversation) :
    Rooted i conv t (selectResolved id (selectThread id fresh s).1 answer (selectThread id fresh s).2) ∧
      (selectResolved id (selectThread id fresh s).1 answer (selectThread id fresh s).2).view.session ≠ some i := by
  have hr : Rooted i conv t { leave s with activeId := id } := h.congr rfl rfl
  have hview : ∀ (ref : ℕ) (u : Thread) (r : Store), lookup ref r = some u → u.bgSession ≠ some i →
      (selectResolved id (some ref) answer r).view.session ≠ some i := by
    intro ref u r hlookup hu
    rw [view_selectResolved hlookup]
    unfold restore
    dsimp only
    split
    · exact hu
    · exact fun hnone => nomatch hnone
  rw [selectThread_eq]
  cases hfound : findThread id { leave s with activeId := id } with
  | none =>
    dsimp only
    constructor
    · apply Rooted.selectResolved_other
      · exact hr.congr rfl rfl
      · intro ref href
        cases href
    · dsimp only [selectResolved, Option.bind_none]
      split <;> exact fun hnone => nomatch hnone
  | some u =>
    obtain ⟨hmem, huid⟩ := findThread_some hfound
    have hne : u.ref ≠ t.ref := by
      intro href
      rw [hr.eq_of_ref hmem href] at huid
      exact hid huid.symm
    have hensure := hr.ensureConvId hne hfresh
    obtain ⟨u', hlookup, hsession⟩ := ensureConvId_lookup (hr.unique.lookup hmem) fresh
    dsimp only
    constructor
    · apply Rooted.selectResolved_other
      · exact hensure.congr rfl rfl
      · intro ref href
        rw [← Option.some.inj href]
        exact hne
    · refine hview u.ref u' _ hlookup ?_
      rw [hsession]
      exact (hr.sole u hmem hne).1

theorem activeId_selected (id : ThreadId) (fresh : ConvId) (answer : Option Conversation) (s : Store) :
    (selectResolved id (selectThread id fresh s).1 answer (selectThread id fresh s).2).activeId = id := by
  have hframe := frame_selectResolved (g := ident) id (selectThread id fresh s).1 answer (selectThread id fresh s).2
  rw [hframe.activeId, selectThread_eq]
  dsimp only
  cases findThread id { leave s with activeId := id } with
  | none => rfl
  | some u =>
    dsimp only
    unfold ensureConvId
    split <;> rfl

/-- The thread of the turn is selected again. -/
theorem Rooted.select_own (h : Rooted i conv t (leave s)) (fresh : ConvId) {answer : Option Conversation}
    (hquiet : Quiet t answer) :
    (∃ w, Rooted i conv (unpark { t with updatedAt := w })
        (selectResolved t.id (selectThread t.id fresh s).1 answer (selectThread t.id fresh s).2)) ∧
      (selectResolved t.id (selectThread t.id fresh s).1 answer (selectThread t.id fresh s).2).view =
        restore (some t) { (leave s).view with conv := some conv, panel := t.panel, messages := t.messages } := by
  have hr : Rooted i conv t { leave s with activeId := t.id } := h.congr rfl rfl
  have hselected : selectThread t.id fresh s =
      (some t.ref, { leave s with activeId := t.id, view := { (leave s).view with conv := some conv, panel := t.panel } }) := by
    rw [selectThread_eq, hr.found]
    dsimp only
    unfold Chat.ensureConvId
    rw [h.named]
  rw [hselected]
  have hr' : Rooted i conv t { leave s with activeId := t.id, view := { (leave s).view with conv := some conv, panel := t.panel } } :=
    h.congr rfl rfl
  refine ⟨hr'.selectResolved_own hquiet, ?_⟩
  rw [view_selectResolved (hr'.unique.lookup hr'.mem)]
  have hmessages : ((cloudWins (some t) answer).map (tagged t.id)).getD t.messages = t.messages := by
    unfold Quiet at hquiet
    cases hwins : cloudWins (some t) answer with
    | none => rfl
    | some ms =>
      rw [hwins] at hquiet
      exact hquiet.1
  rw [hmessages]

end

/-! ### The standing of a turn over a switch -/

/-- The standing stays, or the turn was over and what is to be compared stays. -/
structure Kept (i : ℕ) (q q' : Standing) : Prop where
  messages : q'.messages = q.messages
  resume : q'.resume = q.resume
  todos : q'.todos = q.todos
  turn : q' = q ∨ (q'.session ≠ some i ∧ (q.session = some i → q.streaming = false))

theorem Kept.refl (i : ℕ) (q : Standing) : Kept i q q := ⟨rfl, rfl, rfl, Or.inl rfl⟩

section
variable {base : List Message} {i : ℕ} {conv : ConvId} {t : Thread} {s : Store} {p q q' : Standing}

theorem Agree.kept (h : Agree base p q) (hkept : Kept i q q') : Agree base p q' := by
  obtain ⟨ms, ns, x, hp, hq, hx, hy⟩ := h.texts
  exact ⟨⟨ms, ns, x, hp, hkept.messages.trans hq, hx, hy⟩, h.resume.trans hkept.resume.symm, h.todos.trans hkept.todos.symm⟩

theorem Live.kept (h : Live base i p q) (hkept : Kept i q q') :
    Live base i p q' ∨ q'.session ≠ some i ∧ Agree base p q' := by
  rcases hkept.turn with rfl | ⟨hsession, hended⟩
  · exact Or.inl h
  · exact Or.inr ⟨hsession, h.left hkept.messages hkept.resume hkept.todos (hended h.session)⟩

theorem switchTo_other {id : ThreadId} (h : s.activeId ≠ id) (fresh : ConvId) (answer : Option Conversation) :
    switchTo id fresh answer s = selectResolved id (selectThread id fresh s).1 answer (selectThread id fresh s).2 :=
  if_neg h

/-- The thread of the turn is left. -/
theorem Hosts.switch_away (h : Hosts i conv t s) (ha : s.activeId = t.id) {id : ThreadId} (hid : id ≠ t.id) {fresh : ConvId}
    (hfresh : fresh ≠ conv) (answer : Option Conversation) :
    ∃ q, Reaches i conv t.id (switchTo id fresh answer s) q ∧ Kept i (standingOf t s) q := by
  have hsame := detached_same s.view t
  have hid' : id ≠ (leftAs s.view t).id := by
    rw [show (leftAs s.view t).id = t.id from hsame.1]
    exact hid
  have hselected := (h.toRooted.leave_own ha).select_other hid' hfresh answer
  have hactive := activeId_selected id fresh answer s
  rw [← switchTo_other (by rw [ha]; exact hid.symm)] at hselected hactive
  have hbg : (leftAs s.view t).bgConv = none ∨ (leftAs s.view t).bgConv = some conv := by
    dsimp only [leftAs, detached]
    split
    · exact Or.inr (h.inView ha).1
    · exact h.bgConv
  have hstream : (leftAs s.view t).bgSession = some i → (leftAs s.view t).isStreaming = true := by
    dsimp only [leftAs, detached]
    split
    · exact fun _ => rfl
    · exact fun hsession => absurd hsession (h.inView ha).2
  have ha' : (switchTo id fresh answer s).activeId ≠ (leftAs s.view t).id := by
    rw [hactive]
    exact hid'
  refine ⟨_, ⟨leftAs s.view t, hsame.1, ⟨hselected.1, hbg, fun heq => absurd heq ha', fun _ => ⟨hselected.2, hstream⟩⟩,
    standingOf_parked ha'⟩, ?_⟩
  rw [standingOf_shown ha]
  refine ⟨rfl, hsame.2.2.2, rfl, ?_⟩
  have hbgSession := (h.inView ha).2
  cases hview : s.view.streaming with
  | true =>
    cases hsession : s.view.session with
    | some j =>
      left
      simp [shownAs, parked, leftAs, detached, hview, hsession]
    | none =>
      right
      simp [shownAs, parked, leftAs, detached, hview, hsession, hbgSession]
  | false =>
    right
    simp only [shownAs, parked, leftAs, detached, hview, Bool.false_eq_true, if_false]
    refine ⟨?_, fun _ => trivial⟩
    split
    · exact hbgSession
    · exact fun hnone => by cases hnone

/-- The thread of the turn is selected again. -/
theorem Hosts.switch_back (h : Hosts i conv t s) (ha : s.activeId ≠ t.id) (fresh : ConvId) {answer : Option Conversation}
    (hquiet : Quiet t answer) :
    ∃ q, Reaches i conv t.id (switchTo t.id fresh answer s) q ∧ Kept i (standingOf t s) q := by
  obtain ⟨⟨w, hr⟩, hview⟩ := (h.toRooted.leave_other ha (h.away ha).1).select_own fresh hquiet
  have hactive := activeId_selected t.id fresh answer s
  rw [← switchTo_other ha] at hr hview hactive
  have hid : (unpark { t with updatedAt := w }).id = t.id := (unpark_same _).1
  have ha' : (switchTo t.id fresh answer s).activeId = (unpark { t with updatedAt := w }).id := by rw [hid, hactive]
  have hresume : (unpark { t with updatedAt := w }).ccSessionId = t.ccSessionId := by
    unfold unpark
    split <;> rfl
  have hbg : (unpark { t with updatedAt := w }).bgConv = none ∨ (unpark { t with updatedAt := w }).bgConv = some conv := by
    unfold unpark
    split
    · exact Or.inl rfl
    · exact h.bgConv
  have hconv : (switchTo t.id fresh answer s).view.conv = some conv := by
    rw [hview]
    unfold restore
    dsimp only
    split
    · rcases h.bgConv with hnone | hsome
      · rw [hnone]
        rfl
      · rw [hsome]
        rfl
    · rfl
  have hsession : (unpark { t with updatedAt := w }).bgSession ≠ some i := by
    unfold unpark
    split
    · exact fun hnone => nomatch hnone
    next hidle => exact fun heq => hidle ((h.away ha).2 heq)
  refine ⟨_, ⟨_, hid, ⟨hr, hbg, fun _ => ⟨hconv, hsession⟩, fun hne => absurd ha' hne⟩, standingOf_shown ha'⟩, ?_⟩
  rw [standingOf_parked ha, hview, hresume]
  cases hstream : t.isStreaming with
  | true => exact ⟨by simp [restore, hstream, shownAs, parked], rfl, by simp [restore, hstream, shownAs, parked],
      Or.inl (by simp [restore, hstream, shownAs, parked])⟩
  | false => exact ⟨by simp [restore, hstream, shownAs, parked], rfl, by simp [restore, hstream, shownAs, parked],
      Or.inr (by simp [restore, hstream, shownAs, parked])⟩

/-- Every switch. -/
theorem Hosts.switch (h : Hosts i conv t s) (id : ThreadId) {fresh : ConvId} (hfresh : fresh ≠ conv)
    {answer : Option Conversation} (hquiet : id = t.id → s.activeId ≠ t.id → Quiet t answer) :
    ∃ q, Reaches i conv t.id (switchTo id fresh answer s) q ∧ Kept i (standingOf t s) q := by
  by_cases hsame : s.activeId = id
  · rw [show switchTo id fresh answer s = s from if_pos hsame]
    exact ⟨_, ⟨t, rfl, h, rfl⟩, Kept.refl i _⟩
  by_cases hid : id = t.id
  · subst hid
    exact h.switch_back hsame fresh (hquiet rfl hsame)
  by_cases ha : s.activeId = t.id
  · exact h.switch_away ha hid hfresh answer
  · have hselected := (h.toRooted.leave_other ha (h.away ha).1).select_other hid hfresh answer
    have hactive := activeId_selected id fresh answer s
    rw [← switchTo_other hsame] at hselected hactive
    have ha' : (switchTo id fresh answer s).activeId ≠ t.id := by
      rw [hactive]
      exact hid
    refine ⟨_, ⟨t, rfl, ⟨hselected.1, h.bgConv, fun heq => absurd heq ha', fun _ => ⟨hselected.2, (h.away ha).2⟩⟩, rfl⟩, ?_⟩
    rw [standingOf_parked ha, standingOf_parked ha']
    exact Kept.refl i _

end

/-! ### The chunks of the turn -/

section
variable {i : ℕ} {conv : ConvId} {t : Thread} {s : Store}

theorem Rooted.backgroundOf (h : Rooted i conv t s) :
    backgroundOf i s = if t.bgSession = some i ∧ t.isStreaming = true then some t else none := by
  have honly : ∀ u ∈ s.threads, u.bgSession = some i → u = t := by
    intro u hu hsession
    by_cases href : u.ref = t.ref
    · exact h.eq_of_ref hu href
    · exact absurd hsession (h.sole u hu href).1
  unfold Chat.backgroundOf
  cases hfound : s.threads.find? fun u => decide (u.bgSession = some i) && u.isStreaming with
  | none =>
    have hnot := List.find?_eq_none.mp hfound t h.mem
    rw [if_neg]
    simpa using hnot
  | some u =>
    have hu := List.find?_some hfound
    simp only [Bool.and_eq_true, decide_eq_true_eq] at hu
    have heq := honly u (List.mem_of_find?_eq_some hfound) hu.1
    rw [heq] at hu ⊢
    rw [if_pos hu]

theorem session_parked (ha : s.activeId ≠ t.id) :
    (standingOf t s).session = some i ↔ t.bgSession = some i ∧ t.isStreaming = true := by
  rw [standingOf_parked ha]
  dsimp only [shownAs, parked]
  cases t.isStreaming <;> simp

/-- A chunk of the turn finds its thread while the session is known. -/
theorem Hosts.chunk (h : Hosts i conv t s) (hsession : (standingOf t s).session = some i) (owner : ThreadId) (c : AgentChunk)
    (now : Text) :
    Reaches i conv t.id (ingestChunk owner (c.chunk conv) (some i) now s)
      (if s.activeId = t.id then Standing.inView owner c (standingOf t s) else Standing.away owner c (standingOf t s)) := by
  unfold ingestChunk
  by_cases ha : s.activeId = t.id
  · have hview : s.view.session = some i := by
      rw [standingOf_shown ha] at hsession
      exact hsession
    rw [if_pos ha, show resolveChunkTarget (c.chunk conv) (some i) s = .active from if_pos hview]
    exact reaches_inView h ha owner c now
  · have hbackground := h.toRooted.backgroundOf
    rw [if_pos ((session_parked ha).mp hsession)] at hbackground
    have htarget : resolveChunkTarget (c.chunk conv) (some i) s = .background t := by
      dsimp only [resolveChunkTarget]
      rw [if_neg (h.away ha).1, hbackground]
    rw [if_neg ha, htarget]
    exact reaches_away h ha owner c now

/-- `message_start` in the background of another thread. -/
theorem Rooted.start_other (h : Rooted i conv t s) {u : Thread} (hne : u.ref ≠ t.ref) (owner : ThreadId) (session now : Text) :
    Rooted i conv t (ingestBackground owner (AgentChunk.chunk conv (.messageStart session)) u now s) := by
  have hset := h.update_other hne (f := fun v : Thread => { v with ccSessionId := some session })
    (by intro v; rfl) (by intro v; rfl) fun v hv hvr => h.sole v hv (hvr.trans_ne hne)
  have hstep : ingestBackground owner (AgentChunk.chunk conv (.messageStart session)) u now s =
      if u.ccSessionId = some session then s
      else persist (update u.ref (fun v => { v with ccSessionId := some session }) s) := rfl
  rw [hstep]
  split
  · exact h
  · exact hset.congr rfl rfl

theorem view_start_other (owner : ThreadId) (u : Thread) (session now : Text) (s : Store) :
    (ingestBackground owner (AgentChunk.chunk conv (.messageStart session)) u now s).view = s.view := by
  have hstep : ingestBackground owner (AgentChunk.chunk conv (.messageStart session)) u now s =
      if u.ccSessionId = some session then s
      else persist (update u.ref (fun v => { v with ccSessionId := some session }) s) := rfl
  rw [hstep]
  split <;> rfl

theorem targetOfConv_mem {c : ConvId} {u : Thread} (h : targetOfConv c .orphan s = .background u) : u ∈ s.threads := by
  unfold targetOfConv at h
  split at h
  · cases h
  · split at h
    next hfound =>
      cases h
      exact List.mem_of_find?_eq_some hfound
    · cases h

/-- A chunk that comes when the session is gone: `message_start` still names the conversation. -/
theorem Hosts.late_chunk (h : Hosts i conv t s) (hsession : (standingOf t s).session ≠ some i) (owner : ThreadId) (c : AgentChunk)
    (now : Text) (hstart : ∀ session, c = .messageStart session → s.activeId ≠ t.id → t.ccSessionId = some session) :
    Reaches i conv t.id (ingestChunk owner (c.chunk conv) (some i) now s)
      (late (decide (s.activeId = t.id)) c (standingOf t s)) := by
  have hview : s.view.session ≠ some i := by
    by_cases ha : s.activeId = t.id
    · rw [standingOf_shown ha] at hsession
      exact hsession
    · exact (h.away ha).1
  have hbackground : backgroundOf i s = none := by
    rw [h.toRooted.backgroundOf]
    by_cases ha : s.activeId = t.id
    · exact if_neg fun hbg => (h.inView ha).2 hbg.1
    · exact if_neg fun hbg => hsession ((session_parked ha).mpr hbg)
  have htarget : resolveChunkTarget (c.chunk conv) (some i) s =
      (c.chunk conv).conversationId.elim .orphan fun d => targetOfConv d .orphan s := by
    dsimp only [resolveChunkTarget]
    rw [if_neg hview, hbackground]
    cases (c.chunk conv).conversationId <;> rfl
  have hlost (hconv : (c.chunk conv).conversationId = none) : ingestChunk owner (c.chunk conv) (some i) now s = s := by
    unfold ingestChunk
    rw [htarget, hconv, Option.elim_none]
  have hsame (hstill : late (decide (s.activeId = t.id)) c (standingOf t s) = standingOf t s)
      (hconv : (c.chunk conv).conversationId = none) : Reaches i conv t.id (ingestChunk owner (c.chunk conv) (some i) now s)
        (late (decide (s.activeId = t.id)) c (standingOf t s)) := by
    rw [hlost hconv, hstill]
    exact ⟨t, rfl, h, rfl⟩
  cases c with
  | delta text => exact hsame rfl rfl
  | choice content stop => exact hsame rfl rfl
  | status label tool hl => exact hsame rfl rfl
  | error report hr => exact hsame rfl hr.conv
  | done => exact hsame rfl rfl
  | messageStart session =>
    have htarget' : resolveChunkTarget (AgentChunk.chunk conv (.messageStart session)) (some i) s =
        targetOfConv conv .orphan s := htarget
    unfold ingestChunk
    rw [htarget']
    by_cases ha : s.activeId = t.id
    · have hactive : targetOfConv conv .orphan s = .active := if_pos (h.inView ha).1
      have hreach := reaches_inView h ha owner (.messageStart session) now
      rw [hactive]
      simp only [late, ha, decide_true, if_true]
      exact hreach
    · have hresume := hstart session rfl ha
      have hkeeps : ∀ r : Store, Rooted i conv t r → r.activeId = s.activeId → r.view.session = s.view.session →
          Reaches i conv t.id r (late (decide (s.activeId = t.id)) (.messageStart session) (standingOf t s)) := by
        intro r hr hactive hsame
        have hreach := h.hidden ha hr rfl h.bgConv (h.away ha).2 hactive hsame
        rw [← standingOf_parked ha] at hreach
        simp only [late, ha, decide_false, Bool.false_eq_true, if_false]
        exact hreach
      have hframe (u : Thread) := (frame_ingestBackground (g := ident) owner
        (AgentChunk.chunk conv (.messageStart session)) u now s).activeId
      cases htarget : targetOfConv conv .orphan s with
      | active =>
        dsimp only
        have hr : Rooted i conv t { s with view := { s.view with conv := s.view.conv.or (some conv) } } :=
          h.toRooted.congr rfl rfl
        rw [ingestActive_start, pinSession_start hr, if_pos hresume]
        exact hkeeps _ hr rfl rfl
      | background u =>
        dsimp only
        by_cases href : u.ref = t.ref
        · have hu := h.toRooted.eq_of_ref (targetOfConv_mem htarget) href
          have hstep : ingestBackground owner (AgentChunk.chunk conv (.messageStart session)) u now s = s := by
            rw [hu]
            exact if_pos hresume
          rw [hstep]
          exact hkeeps s h.toRooted rfl rfl
        · exact hkeeps _ (h.toRooted.start_other href owner session now) (hframe u) (by rw [view_start_other])
      | orphan => exact hkeeps s h.toRooted rfl rfl

end

/-! ### The two runs -/

inductive TurnStep where
  | chunk (c : AgentChunk) (now : Text)
  | select (id : ThreadId) (fresh : ConvId) (answer : Option Conversation)

/-- The store in which the thread of the turn stays in view, and the one in which it does not. -/
structure Runs where
  stay : Store
  switched : Store

def runs (owner : ThreadId) (conv : ConvId) (i : ℕ) : Machine Runs TurnStep Unit where
  step r
    | .chunk c now =>
      (⟨ingestChunk owner (c.chunk conv) (some i) now r.stay, ingestChunk owner (c.chunk conv) (some i) now r.switched⟩, ())
    | .select id fresh answer => (⟨r.stay, switchTo id fresh answer r.switched⟩, ())

/-- The two ingesters do not differ on the step: the end of the turn marks the steps in
both or in neither, a chunk after the session is gone is empty, and a switch back finds
nothing new. -/
def Harmless (owner : ThreadId) (conv : ConvId) (i : ℕ) (r : Runs) : TurnStep → Prop
  | .chunk c _ =>
    if (standing owner r.switched).session = some i then
      MarksAlike owner (decide (r.switched.activeId = owner)) c (standing owner r.stay) (standing owner r.switched)
    else Inert owner (decide (r.switched.activeId = owner)) (standing owner r.stay) c
  | .select id fresh answer =>
    fresh ≠ conv ∧ (id = owner → r.switched.activeId ≠ owner → ∀ t ∈ findThread owner r.switched, Quiet t answer)

instance (t : Thread) (answer : Option Conversation) : Decidable (Quiet t answer) := by
  unfold Quiet
  split <;> infer_instance

instance (owner : ThreadId) (conv : ConvId) (i : ℕ) (r : Runs) (step : TurnStep) : Decidable (Harmless owner conv i r step) := by
  cases step <;> unfold Harmless <;> infer_instance

/-- The turn is the same in both stores as long as it is on, and agrees once it is over. -/
structure Coupled (owner : ThreadId) (conv : ConvId) (i : ℕ) (base : List Message) (r : Runs) : Prop where
  stay : Reaches i conv owner r.stay (standing owner r.stay)
  shown : r.stay.activeId = owner
  session : (standing owner r.stay).session = some i
  switched : Reaches i conv owner r.switched (standing owner r.switched)
  turn : Live base i (standing owner r.stay) (standing owner r.switched) ∨
    (standing owner r.switched).session ≠ some i ∧ Agree base (standing owner r.stay) (standing owner r.switched)

section
variable {base : List Message} {i : ℕ} {conv : ConvId} {owner : ThreadId}

theorem inView_session (c : AgentChunk) (p : Standing) : (Standing.inView owner c p).session = p.session := by
  cases c with
  | delta text =>
    simp only [Standing.inView]
    split
    · exact p.report_rest.2.2.1
    · rfl
  | choice content stop =>
    cases stop with
    | false => rfl
    | true => exact (p.add _).finish_rest.2.2.1
  | status label tool hl => exact p.flush_rest.2.2.1
  | messageStart session => rfl
  | error report hr => exact p.report_rest.2.2.1
  | done => exact p.finish_rest.2.2.1

theorem late_session (shown : Bool) (c : AgentChunk) (q : Standing) : (late shown c q).session = q.session := by
  cases c with
  | messageStart session => cases shown <;> rfl
  | _ => rfl

theorem Reaches.self {s : Store} {p : Standing} (h : Reaches i conv owner s p) : Reaches i conv owner s (Chat.standing owner s) := by
  rw [h.standing]
  exact h

theorem Reaches.streaming {s : Store} {q : Standing} (h : Reaches i conv owner s q) (ha : s.activeId ≠ owner)
    (hsession : q.session = some i) : q.streaming = true := by
  obtain ⟨t, rfl, hosts, rfl⟩ := h
  rw [standingOf_parked ha]
  exact ((session_parked ha).mp hsession).2

/-- A chunk in a store that still has the session of the turn. -/
theorem Reaches.chunk {s : Store} {q : Standing} (h : Reaches i conv owner s q) (hsession : q.session = some i)
    (c : AgentChunk) (now : Text) :
    Reaches i conv owner (ingestChunk owner (c.chunk conv) (some i) now s)
      (if s.activeId = owner then Standing.inView owner c q else Standing.away owner c q) := by
  obtain ⟨t, rfl, hosts, rfl⟩ := h
  exact hosts.chunk hsession t.id c now

theorem Reaches.late_chunk {s : Store} {q : Standing} (h : Reaches i conv owner s q) (hsession : q.session ≠ some i)
    (c : AgentChunk) (now : Text)
    (hstart : ∀ session, c = .messageStart session → s.activeId ≠ owner → q.resume = some session) :
    Reaches i conv owner (ingestChunk owner (c.chunk conv) (some i) now s) (late (decide (s.activeId = owner)) c q) := by
  obtain ⟨t, rfl, hosts, rfl⟩ := h
  exact hosts.late_chunk hsession t.id c now hstart

theorem Coupled.chunk {r : Runs} (h : Coupled owner conv i base r) (c : AgentChunk) (now : Text)
    (hharmless : Harmless owner conv i r (.chunk c now)) :
    Coupled owner conv i base ((runs owner conv i).step r (.chunk c now)).1 := by
  have hstay := h.stay.chunk h.session c now
  rw [if_pos h.shown] at hstay
  have hshown : (ingestChunk owner (c.chunk conv) (some i) now r.stay).activeId = owner :=
    (frame_ingestChunk (g := ident) owner (c.chunk conv) (some i) now r.stay).activeId.trans h.shown
  have hsession : (standing owner (ingestChunk owner (c.chunk conv) (some i) now r.stay)).session = some i := by
    rw [hstay.standing, inView_session, h.session]
  dsimp only [Harmless] at hharmless
  -- while the session is known both turns take the chunk
  by_cases hq : (standing owner r.switched).session = some i
  · rw [if_pos hq] at hharmless
    have hswitched := h.switched.chunk hq c now
    have hlive : Live base i (standing owner r.stay) (standing owner r.switched) :=
      h.turn.resolve_right fun hover => hover.1 hq
    refine ⟨hstay.self, hshown, hsession, hswitched.self, ?_⟩
    dsimp only [runs]
    rw [hstay.standing, hswitched.standing]
    by_cases ha : r.switched.activeId = owner
    · rw [if_pos ha]
      rw [decide_eq_true ha] at hharmless
      exact Or.inl (hlive.inView c hharmless)
    · rw [if_neg ha]
      rw [decide_eq_false ha] at hharmless
      refine (hlive.away (h.switched.streaming ha hq) c hharmless).imp_right fun hover => ⟨?_, hover.1⟩
      rw [hover.2]
      exact fun hnone => nomatch hnone
  -- afterwards only the one in view does
  · rw [if_neg hq] at hharmless
    have hagree : Agree base (standing owner r.stay) (standing owner r.switched) :=
      (h.turn.resolve_left fun hlive => hq hlive.session).2
    have hstart : ∀ session, c = .messageStart session → r.switched.activeId ≠ owner →
        (standing owner r.switched).resume = some session := by
      rintro session rfl ha
      rw [decide_eq_false ha] at hharmless
      rw [← hagree.resume]
      exact hharmless.resolve_left Bool.false_ne_true
    have hswitched := h.switched.late_chunk hq c now hstart
    refine ⟨hstay.self, hshown, hsession, hswitched.self, Or.inr ?_⟩
    dsimp only [runs]
    rw [hstay.standing, hswitched.standing, late_session]
    exact ⟨hq, hagree.inert _ c hharmless⟩

theorem Coupled.select {r : Runs} (h : Coupled owner conv i base r) (id : ThreadId) (fresh : ConvId)
    (answer : Option Conversation) (hharmless : Harmless owner conv i r (.select id fresh answer)) :
    Coupled owner conv i base ((runs owner conv i).step r (.select id fresh answer)).1 := by
  obtain ⟨t, htid, hosts, hstanding⟩ := h.switched
  obtain ⟨q, hreach, hkept⟩ := @Hosts.switch _ _ _ _ hosts id _ hharmless.1 answer fun hid ha =>
    hharmless.2 (hid.trans htid) (fun heq => ha (heq.trans htid.symm)) t (by rw [← htid]; exact hosts.found)
  rw [htid] at hreach
  rw [hstanding] at hkept
  refine ⟨h.stay, h.shown, h.session, hreach.self, ?_⟩
  dsimp only [runs]
  rw [hreach.standing]
  rcases h.turn with hlive | ⟨hsession, hagree⟩
  · exact hlive.kept hkept
  · refine Or.inr ⟨?_, hagree.kept hkept⟩
    rcases hkept.turn with rfl | ⟨hover, -⟩
    · exact hsession
    · exact hover

theorem Coupled.start {t : Thread} {s : Store} (h : Hosts i conv t s) (ha : s.activeId = t.id) (hsession : s.view.session = some i) :
    Coupled t.id conv i s.view.messages ⟨s, s⟩ := by
  have hreach : Reaches i conv t.id s (shownAs s.view t.ccSessionId) := ⟨t, rfl, h, standingOf_shown ha⟩
  refine ⟨hreach.self, ha, ?_, hreach.self, Or.inl ?_⟩
  · rw [hreach.standing]
    exact hsession
  · rw [hreach.standing]
    exact ⟨hsession, rfl, ⟨[], [], [], [], by simp [shownAs], by simp [shownAs], .nil, .nil, rfl⟩, fun hnil => hnil,
      fun _ => rfl, rfl, rfl⟩

/-- A turn with any switches agrees with the same turn without them once it is over, as
long as no step of it is one on which the two ingesters differ. -/
theorem switched_turn_agrees {t : Thread} {s : Store} (h : Hosts i conv t s) (ha : s.activeId = t.id)
    (hsession : s.view.session = some i) (steps : List TurnStep)
    (hharmless : (runs t.id conv i).Along (Harmless t.id conv i) ⟨s, s⟩ steps)
    (hover : (standing t.id ((runs t.id conv i).run ⟨s, s⟩ steps).stay).streaming = false ∨
      visible (standing t.id ((runs t.id conv i).run ⟨s, s⟩ steps).switched).reply =
        visible (standing t.id ((runs t.id conv i).run ⟨s, s⟩ steps).stay).reply) :
    Agree s.view.messages (standing t.id ((runs t.id conv i).run ⟨s, s⟩ steps).stay)
      (standing t.id ((runs t.id conv i).run ⟨s, s⟩ steps).switched) := by
  have hstep : ∀ r step, Coupled t.id conv i s.view.messages r → Harmless t.id conv i r step →
      Coupled t.id conv i s.view.messages ((runs t.id conv i).step r step).1 := by
    intro r step hr hok
    cases step with
    | chunk c now => exact hr.chunk c now hok
    | select id fresh answer => exact hr.select id fresh answer hok
  have hcoupled := (runs t.id conv i).run_invariant_along hstep (Coupled.start h ha hsession) hharmless
  rcases hcoupled.turn with hlive | ⟨-, hagree⟩
  · apply hlive.agree
    rcases hover with hended | hsame
    · rw [hlive.ended (hlive.streaming.symm.trans hended)]
    · exact hsame
  · exact hagree

end

/-- Two threads, the first one in view with a turn that has just begun. -/
def turnStore : Store :=
  { (System.init Config.plain [] System.savedPair []).store with
    view := ⟨some "thread-2".toList, [⟨.user, tag "thread-2".toList "Hi".toList⟩], [], true, some 0, .empty⟩ }

theorem hosts_turnStore : Hosts 0 "thread-2".toList (System.savedThread 0 "thread-2".toList none) turnStore :=
  ⟨⟨by decide +kernel, by unfold RefsUnique; decide +kernel, rfl, by decide +kernel⟩, Or.inl rfl,
    fun _ => ⟨rfl, by decide⟩, fun hne => absurd (by decide +kernel) hne⟩

/-- A step, a switch, a reply in the background, the switch back and the end. -/
def awayAndBack : List TurnStep :=
  [.chunk (.status "Read".toList none (by decide)) [], .select "thread-1".toList "fresh".toList none,
    .chunk (.delta "Done".toList) [], .select "thread-2".toList "fresh".toList none, .chunk .done []]

theorem switched_turn_agrees_sample :
    Agree turnStore.view.messages
      (standing "thread-2".toList ((runs "thread-2".toList "thread-2".toList 0).run ⟨turnStore, turnStore⟩ awayAndBack).stay)
      (standing "thread-2".toList ((runs "thread-2".toList "thread-2".toList 0).run ⟨turnStore, turnStore⟩ awayAndBack).switched) :=
  switched_turn_agrees hosts_turnStore (by decide +kernel) rfl awayAndBack (by decide +kernel) (by decide +kernel)

def endedAway : List TurnStep :=
  [.chunk (.status "Read".toList none (by decide)) [], .chunk (.delta "Done".toList) [],
    .select "thread-1".toList "fresh".toList none, .chunk .done [], .select "thread-2".toList "fresh".toList none]

/-- The turn ends while another thread is in view: its steps stay open. -/
theorem background_end_leaves_steps_open :
    Hosts 0 "thread-2".toList (System.savedThread 0 "thread-2".toList none) turnStore ∧
      turnStore.activeId = "thread-2".toList ∧ turnStore.view.session = some 0 ∧
      ∃ r, r = (runs "thread-2".toList "thread-2".toList 0).run ⟨turnStore, turnStore⟩ endedAway ∧
        (standing "thread-2".toList r.stay).streaming = false ∧ (standing "thread-2".toList r.switched).streaming = false ∧
        (standing "thread-2".toList r.stay).messages = (standing "thread-2".toList r.switched).messages ∧
        (standing "thread-2".toList r.stay).todos = [⟨"Read".toList, true, none⟩] ∧
        (standing "thread-2".toList r.switched).todos = [⟨"Read".toList, false, none⟩] :=
  ⟨hosts_turnStore, by decide +kernel, rfl, _, rfl, by decide +kernel, by decide +kernel, by decide +kernel, by decide +kernel,
    by decide +kernel⟩

end AgentWorkflow.Desktop.Chat
