import AgentWorkflow.Desktop.ChatSteps

/-!
# Whose things the store holds

The thread every text belongs to is written on its characters; whose a conversation, a
session or a panel is, is a relation given from outside. Leaving a thread and coming
back to it only move things between the shared view and the object of the thread.
-/

namespace AgentWorkflow.Desktop.Chat
open AgentWorkflow.Lib AgentWorkflow.Lib.Calendar

structure Owners where
  conv : ConvId → ThreadId → Prop
  session : ℕ → ThreadId → Prop
  panel : Panel → ThreadId → Prop

/-- What the object of a thread holds is the thread's own. -/
structure Holds (o : Owners) (t : Thread) : Prop where
  messages : AllOwnedBy t.id t.messages
  reply : OwnedBy t.id t.bgReply
  conversation : ∀ c, t.conversationId = some c → o.conv c t.id
  parked : ∀ c, t.bgConv = some c → o.conv c t.id
  session : ∀ i, t.bgSession = some i → o.session i t.id
  panel : o.panel t.panel t.id

def HoldAll (o : Owners) (s : Store) : Prop := ∀ t ∈ s.threads, Holds o t

/-- The part of the view that `selectThread` sets after its await. -/
structure Shows (o : Owners) (id : ThreadId) (v : View) : Prop where
  messages : AllOwnedBy id v.messages
  reply : OwnedBy id v.reply
  session : ∀ i, v.session = some i → o.session i id

/-- The part of the view that `selectThread` sets before its await. -/
structure Names (o : Owners) (id : ThreadId) (v : View) : Prop where
  conv : ∀ c, v.conv = some c → o.conv c id
  panel : o.panel v.panel id

/-- Ownership that only grows. -/
structure Owners.Le (o o' : Owners) : Prop where
  conv : ∀ c id, o.conv c id → o'.conv c id
  session : ∀ i id, o.session i id → o'.session i id
  panel : ∀ p id, o.panel p id → o'.panel p id

theorem Holds.mono {o o' : Owners} (hle : o.Le o') {t : Thread} (h : Holds o t) : Holds o' t :=
  { messages := h.messages
    reply := h.reply
    conversation := fun c hc => hle.conv c _ (h.conversation c hc)
    parked := fun c hc => hle.conv c _ (h.parked c hc)
    session := fun i hi => hle.session i _ (h.session i hi)
    panel := hle.panel _ _ h.panel }

theorem HoldAll.mono {o o' : Owners} (hle : o.Le o') {s : Store} (h : HoldAll o s) : HoldAll o' s :=
  fun t ht => (h t ht).mono hle

theorem Shows.mono {o o' : Owners} (hle : o.Le o') {id : ThreadId} {v : View} (h : Shows o id v) : Shows o' id v :=
  ⟨h.messages, h.reply, fun i hi => hle.session i _ (h.session i hi)⟩

theorem Names.mono {o o' : Owners} (hle : o.Le o') {id : ThreadId} {v : View} (h : Names o id v) : Names o' id v :=
  ⟨fun c hc => hle.conv c _ (h.conv c hc), hle.panel _ _ h.panel⟩

theorem HoldAll.update {o : Owners} {s : Store} (h : HoldAll o s) {ref : ℕ} {f : Thread → Thread}
    (hf : ∀ t ∈ s.threads, t.ref = ref → Holds o t → Holds o (f t)) : HoldAll o (update ref f s) := by
  apply forall_update (P := Holds o)
  · intro t ht _
    exact h t ht
  · intro t ht href
    exact hf t ht href (h t ht)

theorem HoldAll.updateActive {o : Owners} {s : Store} (h : HoldAll o s) (hu : RefsUnique s) {f : Thread → Thread}
    (hf : ∀ t, t.id = s.activeId → Holds o t → Holds o (f t)) : HoldAll o (updateActive f s) := by
  apply forall_updateActive (P := Holds o) hu
  · intro t ht _
    exact h t ht
  · intro t ha
    obtain ⟨ht, hid⟩ := activeThread_some ha
    exact hf t hid (h t ht)

theorem HoldAll.detach {o : Owners} {s : Store} (h : HoldAll o s) (hu : RefsUnique s)
    (hs : Shows o s.activeId s.view) (hn : Names o s.activeId s.view) : HoldAll o (detachActiveStream s) := by
  unfold detachActiveStream
  split
  · apply h.updateActive hu
    intro t hid ht
    rw [← hid] at hs hn
    constructor
    · exact ht.messages
    · exact hs.reply
    · exact ht.conversation
    · exact hn.conv
    · intro i hi
      cases Option.or_eq_some_iff.mp hi with
      | inl hv => exact hs.session i hv
      | inr hb => exact ht.session i hb.2
    · exact ht.panel
  · exact h

theorem HoldAll.park {o : Owners} {s : Store} (h : HoldAll o s) (hu : RefsUnique s)
    (hn : Names o s.activeId s.view) : HoldAll o (parkConversationState s) := by
  apply h.updateActive hu
  intro t hid ht
  rw [← hid] at hn
  exact ⟨ht.messages, ht.reply, ht.conversation, ht.parked, ht.session, hn.panel⟩

theorem HoldAll.takeMessages {o : Owners} {s : Store} (h : HoldAll o s) (hu : RefsUnique s) {ms : List Message}
    (hm : AllOwnedBy s.activeId ms) : HoldAll o (Chat.updateActive (fun t => { t with messages := ms }) s) := by
  apply h.updateActive hu
  intro t hid ht
  rw [← hid] at hm
  exact ⟨hm, ht.reply, ht.conversation, ht.parked, ht.session, ht.panel⟩

theorem HoldAll.sync {o : Owners} {s : Store} (h : HoldAll o s) (hu : RefsUnique s) (now : Text)
    (hm : AllOwnedBy s.activeId s.view.messages) : HoldAll o (syncThreadMessages now s) := by
  apply HoldAll.updateActive (s := s) h hu
  intro t hid ht
  rw [← hid] at hm
  exact ⟨hm, ht.reply, ht.conversation, ht.parked, ht.session, ht.panel⟩

/-! ### Leaving the active thread -/

theorem HoldAll.leave {o : Owners} {s : Store} (h : HoldAll o s) (hu : RefsUnique s)
    (hs : Shows o s.activeId s.view) (hn : Names o s.activeId s.view) : HoldAll o (leave s) := by
  have hd := frame_detachActiveStream (g := ident) s
  have hm : Frame ident (detachActiveStream s)
      (Chat.updateActive (fun t => { t with messages := (detachActiveStream s).view.messages }) (detachActiveStream s)) :=
    .updateActive (by intro t; rfl) _
  apply HoldAll.park
  · apply (h.detach hu hs hn).takeMessages (hd.refsUnique hu)
    rw [hd.activeId, view_detachActiveStream]
    exact hs.messages
  · exact (hd.trans hm).refsUnique hu
  · rw [(hd.trans hm).activeId, view_updateActive, view_detachActiveStream]
    exact hn

theorem selectThread_eq (id : ThreadId) (fresh : ConvId) (s : Store) :
    selectThread id fresh s = match findThread id { leave s with activeId := id } with
      | none => (none, { leave s with activeId := id, view := { (leave s).view with panel := .empty } })
      | some t =>
        let out := ensureConvId t fresh { leave s with activeId := id }
        (some t.ref, { out.2 with view := { out.2.view with conv := some out.1, panel := t.panel } }) := by
  unfold selectThread leave
  rfl

/-- The object that `selectThread` finds, and the view in which it waits. -/
theorem selectThread_found {id : ThreadId} {s : Store} (fresh : ConvId) (h : ∃ t ∈ s.threads, t.id = id) :
    ∃ t ∈ (leave s).threads, t.id = id ∧
      selectThread id fresh s = (some t.ref,
        { (ensureConvId t fresh { leave s with activeId := id }).2 with
          view := { s.view with conv := some (ensureConvId t fresh { leave s with activeId := id }).1, panel := t.panel } }) := by
  have hview : (leave s).view = s.view := by simp [leave]
  rw [selectThread_eq]
  cases hf : findThread id { leave s with activeId := id } with
  | none =>
    exfalso
    obtain ⟨t, ht, hid⟩ := h
    have hmem : id ∈ (leave s).threads.map Thread.id := by
      rw [(frame_leave (g := ident) s).ids, ← hid]
      exact List.mem_map_of_mem ht
    obtain ⟨u, hu, huid⟩ := List.mem_map.mp hmem
    exact findThread_none hf u hu huid
  | some t =>
    obtain ⟨ht, hid⟩ := findThread_some hf
    refine ⟨t, ht, hid, ?_⟩
    dsimp only
    rw [view_ensureConvId]
    dsimp only
    rw [hview]

theorem HoldAll.ensure {o : Owners} {s : Store} (h : HoldAll o s) (hu : RefsUnique s) {t : Thread} (ht : t ∈ s.threads)
    {fresh : ConvId} (hf : o.conv fresh t.id) : HoldAll o (ensureConvId t fresh s).2 := by
  unfold ensureConvId
  cases hc : t.conversationId with
  | some c => exact h
  | none =>
    apply HoldAll.update (s := s) h
    intro u hu' href hold
    rw [hu.eq_threads hu' ht href] at hold ⊢
    refine ⟨hold.messages, hold.reply, ?_, hold.parked, hold.session, hold.panel⟩
    intro c heq
    rw [← Option.some.inj heq]
    exact hf

theorem ensureConvId_owned {o : Owners} {t : Thread} (ht : Holds o t) {fresh : ConvId} (hf : o.conv fresh t.id) (s : Store) :
    o.conv (ensureConvId t fresh s).1 t.id := by
  unfold ensureConvId
  cases hc : t.conversationId with
  | some c => exact ht.conversation c hc
  | none => exact hf

theorem HoldAll.selectThread {o : Owners} {s : Store} (h : HoldAll o s) (hu : RefsUnique s)
    (hs : Shows o s.activeId s.view) (hn : Names o s.activeId s.view) {id : ThreadId} {fresh : ConvId}
    (hid : ∃ t ∈ s.threads, t.id = id) (hf : o.conv fresh id) : HoldAll o (selectThread id fresh s).2 := by
  obtain ⟨t, ht, rfl, heq⟩ := selectThread_found fresh hid
  rw [heq]
  exact HoldAll.ensure (s := { Chat.leave s with activeId := t.id }) (h.leave hu hs hn)
    ((frame_leave s).refsUnique hu) ht hf

theorem names_selectThread {o : Owners} {s : Store} (h : HoldAll o s) (hu : RefsUnique s)
    (hs : Shows o s.activeId s.view) (hn : Names o s.activeId s.view) {id : ThreadId} {fresh : ConvId}
    (hid : ∃ t ∈ s.threads, t.id = id) (hf : o.conv fresh id) : Names o id (selectThread id fresh s).2.view := by
  obtain ⟨t, ht, rfl, heq⟩ := selectThread_found fresh hid
  have hold := h.leave hu hs hn t ht
  rw [heq]
  constructor
  · intro c hc
    rw [← Option.some.inj hc]
    exact ensureConvId_owned hold hf _
  · exact hold.panel

/-! ### A new thread -/

theorem HoldAll.createThread {o : Owners} {s : Store} (h : HoldAll o s) (hu : RefsUnique s)
    (hs : Shows o s.activeId s.view) (hn : Names o s.activeId s.view) (cfg : Config) {fresh : ConvId} (now : Text)
    (hf : o.conv fresh (threadId s.counter)) (hp : o.panel .empty (threadId s.counter)) :
    HoldAll o (createThread cfg fresh now s) := by
  have hd := frame_detachActiveStream (g := ident) s
  have hpark := hd.trans (frame_parkConversationState _)
  have hsync := hpark.trans (frame_syncThreadMessages now _)
  have hold : HoldAll o (syncThreadMessages now (parkConversationState (detachActiveStream s))) := by
    apply HoldAll.sync
    · apply (h.detach hu hs hn).park (hd.refsUnique hu)
      rw [hd.activeId, view_detachActiveStream]
      exact hn
    · exact hpark.refsUnique hu
    · rw [hpark.activeId, view_parkConversationState, view_detachActiveStream]
      exact hs.messages
  intro t ht
  cases List.mem_cons.mp ht with
  | inl heq =>
    rw [heq, hsync.counter]
    refine ⟨?_, ownedBy_nil _, ?_, by simp [newThread], by simp [newThread], hp⟩
    · intro m hm
      rw [List.mem_singleton.mp hm]
      exact ownedBy_tag _ _
    · intro c hc
      rw [← Option.some.inj hc]
      exact hf
  | inr hmem => exact hold t hmem

theorem shows_createThread (o : Owners) (cfg : Config) (fresh : ConvId) (now : Text) (s : Store) :
    Shows o (threadId s.counter) (createThread cfg fresh now s).view := by
  have hsync : Frame ident s (syncThreadMessages now (parkConversationState (detachActiveStream s))) :=
    ((frame_detachActiveStream s).trans (frame_parkConversationState _)).trans (frame_syncThreadMessages now _)
  rw [← hsync.counter]
  refine ⟨?_, ownedBy_nil _, ?_⟩
  · intro m hm
    rw [List.mem_singleton.mp hm]
    exact ownedBy_tag _ _
  · intro i hi
    cases hi

theorem names_createThread {o : Owners} {cfg : Config} {fresh : ConvId} {now : Text} {s : Store}
    (hf : o.conv fresh (threadId s.counter)) (hp : o.panel .empty (threadId s.counter)) :
    Names o (threadId s.counter) (createThread cfg fresh now s).view := by
  refine ⟨?_, hp⟩
  intro c hc
  rw [← Option.some.inj hc]
  exact hf

/-! ### The answer of `getConversation` -/

theorem allOwnedBy_tagged (owner : ThreadId) (ms : List (Role × Text)) : AllOwnedBy owner (tagged owner ms) := by
  intro m hm
  obtain ⟨x, -, rfl⟩ := List.mem_map.mp hm
  exact ownedBy_tag _ _

theorem holds_unpark {o : Owners} {t : Thread} (h : Holds o t) : Holds o (unpark t) := by
  unfold unpark
  split
  · exact ⟨h.messages, ownedBy_nil _, h.conversation, by simp, by simp, h.panel⟩
  · exact h

theorem HoldAll.finish {o : Owners} {s : Store} (h : HoldAll o s) (id : ThreadId) (conv : Option Conversation)
    (before t : Option Thread) (ms : List Message) : HoldAll o (selectResolved.finish id conv before t ms s) := by
  have hpinned (c : Option Text) (u : Thread) (hu : Holds o u) : Holds o { u with ccSessionId := c } :=
    ⟨hu.messages, hu.reply, hu.conversation, hu.parked, hu.session, hu.panel⟩
  unfold selectResolved.finish
  cases t with
  | none => exact h
  | some t =>
    dsimp only
    apply HoldAll.update
    · split
      · exact h
      · exact HoldAll.update (s := s) h fun u _ _ hu => hpinned _ u hu
    · intro u _ _ hu
      exact holds_unpark hu

/-- The merge of the remote messages writes texts of the thread that was asked for, into
the object that was found for it. -/
theorem HoldAll.selectResolved {o : Owners} {s : Store} (h : HoldAll o s) {id : ThreadId} {target : Option ℕ}
    (ht : ∀ t ∈ s.threads, target = some t.ref → t.id = id) (conv : Option Conversation) :
    HoldAll o (selectResolved id target conv s) := by
  unfold Chat.selectResolved
  dsimp only
  split
  · apply HoldAll.finish
    cases target with
    | none => exact h
    | some ref =>
      apply h.update
      intro t hmem href hold
      have hid := ht t hmem (by rw [href])
      refine ⟨?_, hold.reply, hold.conversation, hold.parked, hold.session, hold.panel⟩
      rw [show t.id = id from hid]
      exact allOwnedBy_tagged _ _
  · exact h.finish _ _ _ _ _

theorem shows_restore {o : Owners} {id : ThreadId} {t : Thread} (ht : Holds o t) (hid : t.id = id) {v : View}
    (hm : AllOwnedBy id v.messages) : Shows o id (restore (some t) v) := by
  subst hid
  unfold restore
  dsimp only
  split
  · exact ⟨hm, ht.reply, ht.session⟩
  · refine ⟨hm, ownedBy_nil _, ?_⟩
    intro i hi
    cases hi

theorem names_restore {o : Owners} {id : ThreadId} {t : Thread} (ht : Holds o t) (hid : t.id = id) {v : View}
    (hn : Names o id v) : Names o id (restore (some t) v) := by
  subst hid
  unfold restore
  dsimp only
  split
  · refine ⟨?_, hn.panel⟩
    intro c hc
    cases Option.or_eq_some_iff.mp hc with
    | inl hb => exact ht.parked c hb
    | inr hv => exact hn.conv c hv.2
  · exact ⟨hn.conv, hn.panel⟩

/-- The view after the answer: the messages, and the stream that the object had parked. -/
theorem view_selectResolved {id : ThreadId} {ref : ℕ} {t : Thread} {s : Store} (hl : lookup ref s = some t)
    (conv : Option Conversation) :
    (selectResolved id (some ref) conv s).view =
      restore (some t) { s.view with messages := ((cloudWins (some t) conv).map (tagged id)).getD t.messages } := by
  have hfinish (before u : Option Thread) (ms : List Message) (s' : Store) :
      (selectResolved.finish id conv before u ms s').view = restore before { s'.view with messages := ms } := by
    unfold selectResolved.finish
    cases u with
    | none => rfl
    | some u =>
      dsimp only
      split
      · rfl
      · rfl
  unfold selectResolved
  simp only [Option.bind_some, hl]
  split
  · next ms heq =>
    rw [hfinish, heq]
    rfl
  · next heq =>
    rw [hfinish, heq]
    rfl

end AgentWorkflow.Desktop.Chat
