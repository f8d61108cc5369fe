import AgentWorkflow.Desktop.ChatStreaming
import AgentWorkflow.Desktop.ChatOwners

/-!
# What an operation leaves to a thread

As long as no chunk turns text of a thread into a message, the operations of the store
change neither its messages nor those that the view shows of it, and no session comes to
another thread.
-/

namespace AgentWorkflow.Desktop.Chat
open AgentWorkflow.Lib AgentWorkflow.Lib.Calendar

/-- The messages of the thread `id` are left, in its object and in the view. -/
structure Leaves (id : ThreadId) (s s' : Store) : Prop where
  threads : ∀ t' ∈ s'.threads, ∃ t ∈ s.threads, t'.ref = t.ref ∧ t'.id = t.id ∧ (t.id = id → t'.messages = t.messages) ∧
    (t'.bgSession = t.bgSession ∨ t'.bgSession = none)
  messages : s.viewOwner = id → s'.view.messages = s.view.messages
  session : s'.view.session = s.view.session ∨ s'.view.session = none
  viewOwner : s'.viewOwner = s.viewOwner
  activeId : s'.activeId = s.activeId

namespace Leaves
variable {id : ThreadId} {s s' s'' : Store}

theorem of_view (hthreads : s'.threads = s.threads) (hm : s.viewOwner = id → s'.view.messages = s.view.messages)
    (hs : s'.view.session = s.view.session ∨ s'.view.session = none) (ho : s'.viewOwner = s.viewOwner)
    (ha : s'.activeId = s.activeId) : Leaves id s s' := by
  refine ⟨?_, hm, hs, ho, ha⟩
  rw [hthreads]
  intro t ht
  exact ⟨t, ht, rfl, rfl, fun _ => rfl, Or.inl rfl⟩

theorem refl (id : ThreadId) (s : Store) : Leaves id s s := of_view rfl (fun _ => rfl) (Or.inl rfl) rfl rfl

theorem trans (h : Leaves id s s') (h' : Leaves id s' s'') : Leaves id s s'' := by
  refine ⟨?_, ?_, ?_, h'.viewOwner.trans h.viewOwner, h'.activeId.trans h.activeId⟩
  · intro v hv
    obtain ⟨u, hu, href', hid', hm', hs'⟩ := h'.threads v hv
    obtain ⟨t, ht, href, hid, hm, hs⟩ := h.threads u hu
    refine ⟨t, ht, href'.trans href, hid'.trans hid, fun heq => (hm' (hid.trans heq)).trans (hm heq), ?_⟩
    rcases hs' with hsame | hnone
    · rw [hsame]
      exact hs
    · exact Or.inr hnone
  · exact fun howner => (h'.messages (h.viewOwner.trans howner)).trans (h.messages howner)
  · rcases h'.session with hsame | hnone
    · rw [hsame]
      exact h.session
    · exact Or.inr hnone

/-- An assignment to an object. -/
theorem update {ref : ℕ} {f : Thread → Thread} (hf : ∀ t ∈ s.threads, t.ref = ref → (f t).ref = t.ref ∧ (f t).id = t.id ∧
    (t.id = id → (f t).messages = t.messages) ∧ ((f t).bgSession = t.bgSession ∨ (f t).bgSession = none)) :
    Leaves id s (Chat.update ref f s) := by
  refine ⟨?_, fun _ => rfl, Or.inl rfl, rfl, rfl⟩
  intro t' ht'
  obtain ⟨t, ht, rfl⟩ := mem_update.mp ht'
  refine ⟨t, ht, ?_⟩
  split
  next href => exact hf t ht href
  · exact ⟨rfl, rfl, fun _ => rfl, Or.inl rfl⟩

theorem updateActive {f : Thread → Thread} (hf : ∀ t ∈ s.threads, (f t).ref = t.ref ∧ (f t).id = t.id ∧
    (t.id = id → (f t).messages = t.messages) ∧ ((f t).bgSession = t.bgSession ∨ (f t).bgSession = none)) :
    Leaves id s (Chat.updateActive f s) := by
  unfold Chat.updateActive
  cases activeThread s with
  | none => exact refl id s
  | some a => exact update fun t ht _ => hf t ht

end Leaves

/-! ### Chunks -/

/-- The chunk makes a message of the reply in view. -/
def Chunk.commits (owner : ThreadId) (c : Chunk) (v : View) : Prop :=
  match extractErrorChunk c with
  | some _ => v.reply ≠ []
  | none =>
    if c.type = .ccStatus ∧ c.label ≠ [] then trim v.reply ≠ []
    else c.finished = true ∧ trim (v.reply ++ tag owner c.text) ≠ []

/-- The chunk makes a message of the reply of a background thread. -/
def Chunk.commitsBackground (owner : ThreadId) (c : Chunk) (t : Thread) : Prop :=
  c.endsBackground = true ∧
    trim (if (extractErrorChunk c).isSome then t.bgReply else t.bgReply ++ tag owner c.backgroundText) ≠ []

instance (owner : ThreadId) (c : Chunk) (v : View) : Decidable (c.commits owner v) := by
  unfold Chunk.commits
  split <;> infer_instance

instance (owner : ThreadId) (c : Chunk) (t : Thread) : Decidable (c.commitsBackground owner t) := by
  unfold Chunk.commitsBackground
  infer_instance

/-- Where the chunk goes it makes no message of the thread `id`. -/
def Spared (id owner : ThreadId) (c : Chunk) (source : Option ℕ) (s : Store) : Prop :=
  match resolveChunkTarget c source s with
  | .active => s.viewOwner = id ∨ s.activeId = id → ¬ c.commits owner s.view
  | .background t => t.id = id → ¬ c.commitsBackground owner t
  | .orphan => True

instance (id owner : ThreadId) (c : Chunk) (source : Option ℕ) (s : Store) : Decidable (Spared id owner c source s) := by
  unfold Spared
  split <;> infer_instance

section
variable {id : ThreadId} {s : Store}

theorem leaves_persistBubble (conv : Option ConvId) (content : Content) (s : Store) :
    Leaves id s (persistBubble conv content s) := by
  unfold persistBubble
  split
  · exact .refl id s
  · split
    · exact .refl id s
    · exact .of_view rfl (fun _ => rfl) (Or.inl rfl) rfl rfl

theorem leaves_commitReply (ho : s.viewOwner ≠ id) : Leaves id s (commitReply s) := by
  refine Leaves.trans ?_ (leaves_persistBubble _ _ _)
  exact .of_view rfl (fun heq => absurd heq ho) (Or.inl rfl) rfl rfl

theorem leaves_ingestError (err : ErrorInfo) (h : s.viewOwner = id → s.view.reply = []) : Leaves id s (ingestError err s) := by
  unfold ingestError
  dsimp only
  split
  · exact .of_view rfl (fun _ => rfl) (Or.inl rfl) rfl rfl
  next hreply =>
    have ho : s.viewOwner ≠ id := fun heq => hreply (h heq)
    refine Leaves.trans (Leaves.trans ?_ (leaves_commitReply ?_)) (Leaves.of_view rfl (fun _ => rfl) (Or.inl rfl) rfl rfl)
    · exact .of_view rfl (fun _ => rfl) (Or.inl rfl) rfl rfl
    · exact ho

theorem leaves_ingestStatus (label : Text) (tool : Option Text) (h : s.viewOwner = id → trim s.view.reply = []) :
    Leaves id s (ingestStatus label tool s) := by
  unfold ingestStatus
  dsimp only
  split
  · exact .of_view rfl (fun _ => rfl) (Or.inl rfl) rfl rfl
  next hreply =>
    refine Leaves.trans (leaves_commitReply fun heq => hreply (h heq)) ?_
    exact .of_view rfl (fun _ => rfl) (Or.inl rfl) rfl rfl

theorem leaves_persist (s : Store) : Leaves id s (persist s) := .of_view rfl (fun _ => rfl) (Or.inl rfl) rfl rfl

theorem leaves_pinSession (chunk : Chunk) (s : Store) : Leaves id s (pinSession chunk s) := by
  unfold pinSession
  split
  · dsimp only
    split
    · exact .refl id s
    · split
      · exact .refl id s
      · refine Leaves.trans (Leaves.update ?_) (leaves_persist _)
        intro t _ _
        exact ⟨rfl, rfl, fun _ => rfl, Or.inl rfl⟩
  · exact .refl id s

/-- The messages of the view go to the active thread. -/
theorem leaves_syncThreadMessages (now : Text) (hu : RefsUnique s) (ha : s.activeId ≠ id) :
    Leaves id s (syncThreadMessages now s) := by
  refine Leaves.trans ?_ (leaves_persist _)
  unfold updateActive
  cases hactive : activeThread s with
  | none => exact .refl id s
  | some a =>
    obtain ⟨hmem, haid⟩ := activeThread_some hactive
    apply Leaves.update
    intro t ht href
    refine ⟨rfl, rfl, fun heq => ?_, Or.inl rfl⟩
    rw [hu.eq_threads ht hmem href] at heq
    exact absurd (haid.symm.trans heq) ha

theorem leaves_finishActive (now : Text) (hu : RefsUnique s) (h : s.viewOwner = id ∨ s.activeId = id → trim s.view.reply = []) :
    Leaves id s (finishActive now s) := by
  unfold finishActive
  dsimp only
  split
  · exact .of_view rfl (fun _ => rfl) (Or.inl rfl) rfl rfl
  next hreply =>
    have hnot : ¬ (s.viewOwner = id ∨ s.activeId = id) := fun heq => hreply (h heq)
    refine Leaves.trans (Leaves.trans ?_ (leaves_syncThreadMessages now ?_ ?_)) (leaves_persistBubble _ _ _)
    · exact .of_view rfl (fun heq => absurd (Or.inl heq) hnot) (Or.inl rfl) rfl rfl
    · exact hu
    · exact fun heq => hnot (Or.inr heq)

theorem leaves_ingestActive (owner : ThreadId) (c : Chunk) (now : Text) (hu : RefsUnique s)
    (h : s.viewOwner = id ∨ s.activeId = id → ¬ c.commits owner s.view) : Leaves id s (ingestActive owner c now s) := by
  unfold Chunk.commits at h
  unfold ingestActive
  cases herr : extractErrorChunk c with
  | some err =>
    rw [herr] at h
    exact leaves_ingestError err fun heq => not_not.mp (h (Or.inl heq))
  | none =>
    rw [herr] at h
    dsimp only at h ⊢
    split
    next hstatus =>
      rw [if_pos hstatus] at h
      exact leaves_ingestStatus _ _ fun heq => not_not.mp (h (Or.inl heq))
    next hstatus =>
      rw [if_neg hstatus] at h
      have hadd : Leaves id s { s with view := { s.view with
          reply := s.view.reply ++ tag owner c.text, conv := s.view.conv.or c.conversationId } } :=
        .of_view rfl (fun _ => rfl) (Or.inl rfl) rfl rfl
      have hpin := hadd.trans (leaves_pinSession c _)
      split
      next hfin =>
        refine hpin.trans (leaves_finishActive now ?_ ?_)
        · exact (frame_pinSession (g := ident) c _).refsUnique hu
        · intro heq
          rw [hpin.viewOwner, hpin.activeId] at heq
          rw [view_pinSession]
          by_contra htext
          exact h heq ⟨hfin, htext⟩
      · exact hpin

theorem leaves_finishBackground {t : Thread} (now : Text) (hu : RefsUnique s) (ht : t ∈ s.threads)
    (h : t.id = id → trim t.bgReply = []) : Leaves id s (finishBackground t now s) := by
  have hbubble : Leaves id s (if trim t.bgReply = [] then s else persistBubble t.bgConv (trim t.bgReply) s) := by
    split
    · exact .refl id s
    · exact leaves_persistBubble _ _ s
  have hu' : ∀ u ∈ (if trim t.bgReply = [] then s else persistBubble t.bgConv (trim t.bgReply) s).threads,
      u.ref = t.ref → u = t := by
    intro u hmem href
    refine hu.eq_threads ?_ ht href
    split at hmem
    · exact hmem
    · unfold persistBubble at hmem
      split at hmem
      · exact hmem
      · split at hmem <;> exact hmem
  unfold finishBackground
  refine (hbubble.trans (Leaves.update ?_)).trans (leaves_persist _)
  intro u hmem href
  rw [hu' u hmem href]
  refine ⟨rfl, rfl, fun heq => ?_, Or.inr rfl⟩
  exact if_pos (h heq)

theorem leaves_ingestBackground (owner : ThreadId) (c : Chunk) {t : Thread} (now : Text) (hu : RefsUnique s)
    (ht : t ∈ s.threads) (h : t.id = id → ¬ c.commitsBackground owner t) : Leaves id s (ingestBackground owner c t now s) := by
  unfold Chunk.commitsBackground at h
  unfold ingestBackground
  split
  · split
    · exact .refl id s
    · apply Leaves.update
      intro u _ _
      exact ⟨rfl, rfl, fun _ => rfl, Or.inl rfl⟩
  next hstatus =>
    split
    · split
      · exact .refl id s
      · refine Leaves.trans (Leaves.update ?_) (leaves_persist _)
        intro u _ _
        exact ⟨rfl, rfl, fun _ => rfl, Or.inl rfl⟩
    next hstart =>
      have hends : c.terminal = true → c.endsBackground = true := by
        intro hterminal
        have hnot : (decide (c.type = .messageStart) && c.ccSessionId.isSome) = false := by
          rw [Bool.and_eq_false_iff, decide_eq_false_iff_not]
          refine or_iff_not_imp_left.mpr fun htype => ?_
          cases hid : c.ccSessionId with
          | none => rfl
          | some newId => exact absurd hid (hstart newId (not_not.mp htype))
        simp [Chunk.endsBackground, hterminal, hstatus, hnot]
      split
      next herr =>
        rw [if_pos herr] at h
        have hterminal : c.terminal = true := by simp [Chunk.terminal, herr]
        exact leaves_finishBackground now hu ht fun heq => not_not.mp fun htext => h heq ⟨hends hterminal, htext⟩
      next herr =>
        rw [if_neg herr] at h
        let more (u : Thread) : Thread := { u with bgReply := u.bgReply ++ tag owner c.backgroundText }
        have hmore : Leaves id s (update t.ref more s) := by
          apply Leaves.update
          intro u _ _
          exact ⟨rfl, rfl, fun _ => rfl, Or.inl rfl⟩
        dsimp only
        split
        next hfin =>
          have hterminal : c.terminal = true := by simp [Chunk.terminal, hfin]
          refine hmore.trans (leaves_finishBackground now ?_ ?_ ?_)
          · have hframe : Frame ident s (update t.ref more s) := .update t.ref (by intro u; rfl) s
            exact hframe.refsUnique hu
          · exact mem_update.mpr ⟨t, ht, (if_pos rfl).symm⟩
          · exact fun heq => not_not.mp fun htext => h heq ⟨hends hterminal, htext⟩
        · exact hmore

theorem resolve_mem {c : Chunk} {source : Option ℕ} {t : Thread} (h : resolveChunkTarget c source s = .background t) :
    t ∈ s.threads := by
  have hconv : ∀ (d : ConvId) (other : Target), other = .active ∨ other = .orphan →
      targetOfConv d other s = .background t → t ∈ s.threads := by
    intro d other hother htarget
    unfold targetOfConv at htarget
    split at htarget
    · cases htarget
    · split at htarget
      next hfound =>
        cases htarget
        exact List.mem_of_find?_eq_some hfound
      · rcases hother with rfl | rfl <;> cases htarget
  unfold resolveChunkTarget at h
  split at h
  · split at h
    · cases h
    · split at h
      next hfound =>
        cases h
        exact List.mem_of_find?_eq_some hfound
      · split at h
        · cases h
        · exact hconv _ _ (Or.inr rfl) h
  · split at h
    · cases h
    · exact hconv _ _ (Or.inl rfl) h

theorem leaves_ingestChunk (owner : ThreadId) (c : Chunk) (source : Option ℕ) (now : Text) (hu : RefsUnique s)
    (h : Spared id owner c source s) : Leaves id s (ingestChunk owner c source now s) := by
  unfold Spared at h
  unfold ingestChunk
  cases htarget : resolveChunkTarget c source s with
  | active =>
    rw [htarget] at h
    exact leaves_ingestActive owner c now hu h
  | background t =>
    rw [htarget] at h
    exact leaves_ingestBackground owner c now hu (resolve_mem htarget) h
  | orphan => exact .refl id s

/-! ### The other operations -/

theorem leaves_ensureConvId (t : Thread) (fresh : ConvId) (s : Store) : Leaves id s (ensureConvId t fresh s).2 := by
  unfold ensureConvId
  split
  · exact .refl id s
  · refine Leaves.trans (Leaves.update ?_) (leaves_persist _)
    intro u _ _
    exact ⟨rfl, rfl, fun _ => rfl, Or.inl rfl⟩

theorem leaves_beginTurn (content now : Text) (ho : s.viewOwner ≠ id) : Leaves id s (beginTurn content now s) := by
  unfold beginTurn
  refine Leaves.trans ?_ (Leaves.updateActive ?_)
  · exact .of_view rfl (fun heq => absurd heq ho) (Or.inl rfl) rfl rfl
  · intro t _
    exact ⟨rfl, rfl, fun _ => rfl, Or.inl rfl⟩

theorem leaves_failTurn (message : Text) (s : Store) : Leaves id s (failTurn message s) :=
  .of_view rfl (fun _ => rfl) (Or.inl rfl) rfl rfl

theorem leaves_httpError (message : Text) (h : s.viewOwner = id → s.view.reply = []) : Leaves id s (httpError message s) :=
  .of_view rfl (fun heq => if_pos (h heq)) (Or.inl rfl) rfl rfl

theorem leaves_exitActive (message : Text) (s : Store) : Leaves id s (exitActive message s) :=
  .of_view rfl (fun _ => rfl) (Or.inr rfl) rfl rfl

theorem leaves_beginRetry (now : Text) (s : Store) : Leaves id s (beginRetry now s) :=
  .of_view rfl (fun _ => rfl) (Or.inl rfl) rfl rfl

theorem leaves_stopStreaming (h : s.viewOwner = id → s.view.reply = []) : Leaves id s (stopStreaming s) :=
  .of_view rfl (fun heq => if_pos (h heq)) (Or.inr rfl) rfl rfl

end

/-! ### The question of a turn -/

/-- The message is the last one of the thread. -/
def EndsWith (id : ThreadId) (q : Message) (ts : List Thread) : Prop :=
  ∀ t ∈ ts, t.id = id → t.messages.getLast? = some q

/-- No other thread has a session of the conversation. -/
def SessionsApart (id : ThreadId) (conv : ConvId) (ss : List Session) (ts : List Thread) : Prop :=
  ∀ t ∈ ts, t.id ≠ id → ∀ i, t.bgSession = some i → ∃ x, ss[i]? = some x ∧ x.conv ≠ conv

/-- No other thread shows a session of the conversation. -/
def ViewApart (id : ThreadId) (conv : ConvId) (ss : List Session) (s : Store) : Prop :=
  s.viewOwner ≠ id → ∀ i, s.view.session = some i → ∃ x, ss[i]? = some x ∧ x.conv ≠ conv

/-- One object has the id. -/
def Sole (id : ThreadId) (s : Store) : Prop := ∀ t ∈ s.threads, ∀ u ∈ s.threads, t.id = id → u.id = id → t.ref = u.ref

section
variable {id : ThreadId} {q : Message} {conv : ConvId} {ss : List Session} {s s' : Store}

theorem EndsWith.leaves (h : EndsWith id q s.threads) (hl : Leaves id s s') : EndsWith id q s'.threads := by
  intro t' ht' hid
  obtain ⟨t, ht, -, hsame, hmessages, -⟩ := hl.threads t' ht'
  rw [hmessages (hsame.symm.trans hid)]
  exact h t ht (hsame.symm.trans hid)

theorem SessionsApart.leaves {id' : ThreadId} (h : SessionsApart id conv ss s.threads) (hl : Leaves id' s s') :
    SessionsApart id conv ss s'.threads := by
  intro t' ht' hid i hi
  obtain ⟨t, ht, -, hsame, -, hsession⟩ := hl.threads t' ht'
  rcases hsession with heq | hnone
  · rw [heq] at hi
    exact h t ht (fun heq => hid (hsame.trans heq)) i hi
  · rw [hnone] at hi
    cases hi

theorem ViewApart.leaves {id' : ThreadId} (h : ViewApart id conv ss s) (hl : Leaves id' s s') : ViewApart id conv ss s' := by
  intro ho i hi
  rcases hl.session with heq | hnone
  · rw [heq] at hi
    exact h (fun howner => ho (hl.viewOwner.trans howner)) i hi
  · rw [hnone] at hi
    cases hi

theorem Sole.frame (h : Sole id s) (hf : Frame ident s s') : Sole id s' := by
  intro t' ht' u' hu' hid hid'
  obtain ⟨t, ht, htident⟩ := hf.mem ht'
  obtain ⟨u, hu, huident⟩ := hf.mem hu'
  have href := h t ht u hu ((congrArg Ident.id htident).trans hid) ((congrArg Ident.id huident).trans hid')
  have hreft : t.ref = t'.ref := congrArg Ident.ref htident
  have hrefu : u.ref = u'.ref := congrArg Ident.ref huident
  omega

/-! ### Leaving a thread and selecting one -/

/-- The messages of the view are written to the active thread. -/
theorem EndsWith.take (h : s.activeId ≠ id → EndsWith id q s.threads) (hu : RefsUnique s) (hsole : Sole id s)
    {ms : List Message} (hlast : s.activeId = id → ms.getLast? = some q) {f : Thread → Thread} (hid : ∀ t, (f t).id = t.id)
    (hm : ∀ t, (f t).messages = ms) : EndsWith id q (updateActive f s).threads := by
  apply forall_updateActive (P := fun t => t.id = id → t.messages.getLast? = some q) hu
  · intro t ht hnot htid
    by_cases ha : s.activeId = id
    · cases hactive : activeThread s with
      | none => exact absurd (htid.trans ha.symm) (findThread_none hactive t ht)
      | some a =>
        obtain ⟨hmem, haid⟩ := activeThread_some hactive
        have href := hsole t ht a hmem htid (haid.trans ha)
        rw [hu.eq_threads ht hmem href] at hnot
        exact absurd hactive hnot
    · exact h ha t ht htid
  · intro t hactive htid
    rw [hm]
    rw [hid] at htid
    exact hlast ((activeThread_some hactive).2.symm.trans htid)

theorem EndsWith.updateActive (h : EndsWith id q s.threads) {f : Thread → Thread} (hid : ∀ t, (f t).id = t.id)
    (hm : ∀ t, (f t).messages = t.messages) : EndsWith id q (updateActive f s).threads := by
  unfold Chat.updateActive
  cases activeThread s with
  | none => exact h
  | some a =>
    intro t' ht' htid
    obtain ⟨t, ht, rfl⟩ := mem_update.mp ht'
    split at htid
    next href =>
      rw [if_pos href, hm]
      exact h t ht ((hid t).symm.trans htid)
    next href =>
      rw [if_neg href]
      exact h t ht htid

theorem EndsWith.detach (h : EndsWith id q s.threads) : EndsWith id q (detachActiveStream s).threads := by
  unfold detachActiveStream
  split
  · exact h.updateActive (fun _ => rfl) fun _ => rfl
  · exact h

theorem SessionsApart.updateActive (h : SessionsApart id conv ss s.threads) {f : Thread → Thread}
    (hf : ∀ t, activeThread s = some t → t.id ≠ id → ∀ i, (f t).bgSession = some i → ∃ x, ss[i]? = some x ∧ x.conv ≠ conv)
    (hid : ∀ t, (f t).id = t.id) (hu : RefsUnique s) : SessionsApart id conv ss (updateActive f s).threads := by
  apply forall_updateActive (P := fun t => t.id ≠ id → ∀ i, t.bgSession = some i → ∃ x, ss[i]? = some x ∧ x.conv ≠ conv) hu
  · exact fun t ht _ => h t ht
  · intro t ha
    rw [hid]
    exact hf t ha

/-- A stream is parked in the thread that the view belongs to. -/
theorem SessionsApart.detach (h : SessionsApart id conv ss s.threads) (hu : RefsUnique s) (hv : ViewApart id conv ss s)
    (howner : s.viewOwner = s.activeId) : SessionsApart id conv ss (detachActiveStream s).threads := by
  unfold detachActiveStream
  split
  · refine h.updateActive ?_ (fun _ => rfl) hu
    intro t ha htid i hi
    obtain ⟨hmem, hactive⟩ := activeThread_some ha
    rcases Option.or_eq_some_iff.mp hi with hview | ⟨-, hbg⟩
    · refine hv ?_ i hview
      rw [howner, ← hactive]
      exact htid
    · exact h t hmem htid i hbg
  · exact h

/-- An assignment of no session. -/
theorem SessionsApart.keep (h : SessionsApart id conv ss s.threads) (hu : RefsUnique s) {f : Thread → Thread}
    (hid : ∀ t, (f t).id = t.id) (hf : ∀ t, (f t).bgSession = t.bgSession) :
    SessionsApart id conv ss (Chat.updateActive f s).threads := by
  refine h.updateActive ?_ hid hu
  intro t ha htid i hi
  rw [hf] at hi
  exact h t (activeThread_some ha).1 htid i hi

theorem endsWith_leave (h : s.activeId ≠ id → EndsWith id q s.threads) (hu : RefsUnique s) (hsole : Sole id s)
    (hlast : s.activeId = id → s.view.messages.getLast? = some q) : EndsWith id q (leave s).threads := by
  have hd := frame_detachActiveStream (g := ident) s
  have htake : EndsWith id q (updateActive (fun t => { t with messages := (detachActiveStream s).view.messages })
      (detachActiveStream s)).threads := by
    refine EndsWith.take ?_ (hd.refsUnique hu) (hsole.frame hd) ?_ (fun _ => rfl) (fun _ => rfl)
    · rw [hd.activeId]
      exact fun ha => (h ha).detach
    · rw [hd.activeId, view_detachActiveStream]
      exact hlast
  exact htake.updateActive (fun _ => rfl) fun _ => rfl

theorem sessionsApart_leave (h : SessionsApart id conv ss s.threads) (hu : RefsUnique s) (hv : ViewApart id conv ss s)
    (howner : s.viewOwner = s.activeId) : SessionsApart id conv ss (leave s).threads := by
  have hd := frame_detachActiveStream (g := ident) s
  have hm : Frame ident (detachActiveStream s)
      (updateActive (fun t => { t with messages := (detachActiveStream s).view.messages }) (detachActiveStream s)) :=
    .updateActive (by intro t; rfl) _
  have htake := (h.detach hu hv howner).keep (hd.refsUnique hu)
    (f := fun t => { t with messages := (detachActiveStream s).view.messages }) (fun _ => rfl) (fun _ => rfl)
  exact htake.keep ((hd.trans hm).refsUnique hu) (fun _ => rfl) (fun _ => rfl)

/-- What `selectThread` leaves until its answer. -/
theorem leaves_selectThread (id id' : ThreadId) (fresh : ConvId) (s : Store) :
    ∃ r, Leaves id { leave s with activeId := id' } r ∧ (selectThread id' fresh s).2.threads = r.threads ∧
      (selectThread id' fresh s).2.view.messages = s.view.messages ∧
      (selectThread id' fresh s).2.view.session = s.view.session ∧
      (selectThread id' fresh s).2.viewOwner = s.viewOwner ∧ (selectThread id' fresh s).2.activeId = id' := by
  have hview : (leave s).view = s.view := by simp [leave]
  have howner : (leave s).viewOwner = s.viewOwner := (frame_leave (g := ident) s).viewOwner
  rw [selectThread_eq]
  cases hfound : findThread id' { leave s with activeId := id' } with
  | none =>
    dsimp only
    rw [hview]
    exact ⟨_, .refl id _, rfl, rfl, rfl, howner, rfl⟩
  | some t =>
    have hensure : Leaves id _ _ := leaves_ensureConvId t fresh { leave s with activeId := id' }
    refine ⟨_, hensure, rfl, ?_, ?_, hensure.viewOwner.trans howner, hensure.activeId⟩
    · dsimp only
      rw [view_ensureConvId]
      exact congrArg View.messages hview
    · dsimp only
      rw [view_ensureConvId]
      exact congrArg View.session hview

/-- The threads after the answer: only the object that was asked for has other messages. -/
theorem threads_selectResolved (id' : ThreadId) (target : Option ℕ) (answer : Option Conversation) (s : Store) :
    ∀ t' ∈ (selectResolved id' target answer s).threads, ∃ t ∈ s.threads, t'.ref = t.ref ∧ t'.id = t.id ∧
      (t'.messages = t.messages ∨ target = some t.ref ∧ ∃ ms, cloudWins (target.bind fun ref => lookup ref s) answer = some ms ∧
        t'.messages = tagged id' ms) ∧ (t'.bgSession = t.bgSession ∨ t'.bgSession = none) := by
  have hfinish : ∀ (before u : Option Thread) (ms : List Message) (r : Store),
      ∀ t' ∈ (selectResolved.finish id' answer before u ms r).threads, ∃ t ∈ r.threads, t'.ref = t.ref ∧ t'.id = t.id ∧
        t'.messages = t.messages ∧ (t'.bgSession = t.bgSession ∨ t'.bgSession = none) := by
    intro before u ms r t' ht'
    unfold selectResolved.finish at ht'
    cases u with
    | none => exact ⟨t', ht', rfl, rfl, rfl, Or.inl rfl⟩
    | some v =>
      obtain ⟨w, hw, rfl⟩ := mem_update.mp ht'
      have hpark : ∀ x : Thread, (unpark x).ref = x.ref ∧ (unpark x).id = x.id ∧ (unpark x).messages = x.messages ∧
          ((unpark x).bgSession = x.bgSession ∨ (unpark x).bgSession = none) := by
        intro x
        unfold unpark
        split
        · exact ⟨rfl, rfl, rfl, Or.inr rfl⟩
        · exact ⟨rfl, rfl, rfl, Or.inl rfl⟩
      have hset : ∃ t ∈ r.threads, w.ref = t.ref ∧ w.id = t.id ∧ w.messages = t.messages ∧ w.bgSession = t.bgSession := by
        dsimp only at hw
        split at hw
        · exact ⟨w, hw, rfl, rfl, rfl, rfl⟩
        · obtain ⟨x, hx, rfl⟩ := mem_update.mp hw
          refine ⟨x, hx, ?_⟩
          split <;> exact ⟨rfl, rfl, rfl, rfl⟩
      obtain ⟨t, ht, href, hid, hmessages, hsession⟩ := hset
      refine ⟨t, ht, ?_⟩
      split
      · obtain ⟨hr, hi, hm, hs⟩ := hpark w
        rw [hr, hi, hm]
        rw [hsession] at hs
        exact ⟨href, hid, hmessages, hs⟩
      · exact ⟨href, hid, hmessages, Or.inl hsession⟩
  intro t' ht'
  unfold selectResolved at ht'
  dsimp only at ht'
  cases hwins : cloudWins (target.bind fun ref => lookup ref s) answer with
  | none =>
    rw [hwins] at ht'
    obtain ⟨t, ht, href, hid, hm, hs⟩ := hfinish _ _ _ _ t' ht'
    exact ⟨t, ht, href, hid, Or.inl hm, hs⟩
  | some ms =>
    rw [hwins] at ht'
    obtain ⟨w, hw, href, hid, hm, hs⟩ := hfinish _ _ _ _ t' ht'
    cases htarget : target with
    | none =>
      rw [htarget] at hw
      exact ⟨w, hw, href, hid, Or.inl hm, hs⟩
    | some ref =>
      rw [htarget] at hw
      obtain ⟨x, hx, rfl⟩ := mem_update.mp hw
      refine ⟨x, hx, ?_⟩
      split at href
      next hxref =>
        rw [if_pos hxref] at hid hm hs
        exact ⟨href, hid, Or.inr ⟨by rw [hxref], ms, rfl, hm⟩, hs⟩
      next hxref =>
        rw [if_neg hxref] at hid hm hs
        exact ⟨href, hid, Or.inl hm, hs⟩

end

end AgentWorkflow.Desktop.Chat
