import AgentWorkflow.Desktop.ChatSystem

/-!
# What the operations of the chat store leave as it is

Every operation on a thread assigns to the object of one `ref`. What is true of all
threads is kept when those assignments keep it; the identities of the threads, their
order, the active thread and the customer are kept by everything but the operations
that are there to change them.
-/

namespace AgentWorkflow.Desktop.Chat
open AgentWorkflow.Lib AgentWorkflow.Lib.Calendar

/-! ### One assignment -/

theorem mem_update {ref : ℕ} {f : Thread → Thread} {s : Store} {t : Thread} :
    t ∈ (update ref f s).threads ↔ ∃ u ∈ s.threads, t = if u.ref = ref then f u else u := by
  simp only [update, List.mem_map, eq_comm]

theorem forall_update {P : Thread → Prop} {ref : ℕ} {f : Thread → Thread} {s : Store}
    (h : ∀ t ∈ s.threads, t.ref ≠ ref → P t) (hf : ∀ t ∈ s.threads, t.ref = ref → P (f t)) :
    ∀ t ∈ (update ref f s).threads, P t := by
  intro t ht
  obtain ⟨u, hu, rfl⟩ := mem_update.mp ht
  split
  · next heq => exact hf u hu heq
  · next hne => exact h u hu hne

theorem findThread_some {id : ThreadId} {s : Store} {t : Thread} (h : findThread id s = some t) :
    t ∈ s.threads ∧ t.id = id :=
  ⟨List.mem_of_find?_eq_some h, by simpa using List.find?_some h⟩

theorem findThread_none {id : ThreadId} {s : Store} (h : findThread id s = none) : ∀ t ∈ s.threads, t.id ≠ id := by
  intro t ht
  simpa using List.find?_eq_none.mp h t ht

theorem activeThread_some {s : Store} {t : Thread} (h : activeThread s = some t) :
    t ∈ s.threads ∧ t.id = s.activeId :=
  findThread_some h

/-- A reading of the objects that an assignment leaves alone. -/
theorem map_update {β : Type*} (g : Thread → β) (ref : ℕ) {f : Thread → Thread} (hf : ∀ t, g (f t) = g t) (s : Store) :
    (update ref f s).threads.map g = s.threads.map g ∧ (update ref f s).detached.map g = s.detached.map g := by
  have h (ts : List Thread) : (ts.map fun t => if t.ref = ref then f t else t).map g = ts.map g := by
    rw [List.map_map]
    apply List.map_congr_left
    intro t _
    dsimp only [Function.comp_apply]
    split
    · exact hf t
    · rfl
  exact ⟨h s.threads, h s.detached⟩

theorem map_updateActive {β : Type*} (g : Thread → β) {f : Thread → Thread} (hf : ∀ t, g (f t) = g t) (s : Store) :
    (updateActive f s).threads.map g = s.threads.map g := by
  unfold updateActive
  cases activeThread s with
  | none => rfl
  | some t => exact (map_update g t.ref hf s).1

/-- No two objects have the same `ref`. -/
def RefsUnique (s : Store) : Prop := ((s.threads ++ s.detached).map Thread.ref).Nodup

theorem RefsUnique.eq {s : Store} (h : RefsUnique s) {t u : Thread} (ht : t ∈ s.threads ++ s.detached)
    (hu : u ∈ s.threads ++ s.detached) (heq : t.ref = u.ref) : t = u :=
  List.inj_on_of_nodup_map h ht hu heq

theorem RefsUnique.eq_threads {s : Store} (h : RefsUnique s) {t u : Thread} (ht : t ∈ s.threads) (hu : u ∈ s.threads)
    (heq : t.ref = u.ref) : t = u :=
  h.eq (List.mem_append_left _ ht) (List.mem_append_left _ hu) heq

theorem RefsUnique.lookup {s : Store} (h : RefsUnique s) {t : Thread} (ht : t ∈ s.threads) : lookup t.ref s = some t := by
  unfold Chat.lookup
  cases hf : (s.threads ++ s.detached).find? fun u => decide (u.ref = t.ref) with
  | none => exact absurd (List.find?_eq_none.mp hf t (List.mem_append_left _ ht)) (by simp)
  | some u =>
    have href : u.ref = t.ref := by simpa using List.find?_some hf
    rw [h.eq (List.mem_of_find?_eq_some hf) (List.mem_append_left _ ht) href]

theorem forall_updateActive {P : Thread → Prop} {f : Thread → Thread} {s : Store} (hu : RefsUnique s)
    (h : ∀ t ∈ s.threads, activeThread s ≠ some t → P t) (hf : ∀ t, activeThread s = some t → P (f t)) :
    ∀ t ∈ (updateActive f s).threads, P t := by
  unfold updateActive
  cases ha : activeThread s with
  | none =>
    intro t ht
    exact h t ht (by simp [ha])
  | some a =>
    apply forall_update
    · intro t ht hne
      apply h t ht
      rw [ha]
      intro heq
      exact hne (congrArg Thread.ref (Option.some.inj heq)).symm
    · intro t ht href
      rw [hu.eq_threads ht (activeThread_some ha).1 href]
      exact hf a ha

@[simp] theorem view_updateActive (f : Thread → Thread) (s : Store) : (updateActive f s).view = s.view := by
  unfold updateActive
  cases activeThread s with
  | none => rfl
  | some t => rfl

@[simp] theorem view_detachActiveStream (s : Store) : (detachActiveStream s).view = s.view := by
  unfold detachActiveStream
  split
  · exact view_updateActive _ s
  · rfl

@[simp] theorem view_parkConversationState (s : Store) : (parkConversationState s).view = s.view :=
  view_updateActive _ s

@[simp] theorem view_syncThreadMessages (now : Text) (s : Store) : (syncThreadMessages now s).view = s.view :=
  view_updateActive _ s

@[simp] theorem view_ensureConvId (t : Thread) (fresh : ConvId) (s : Store) : (ensureConvId t fresh s).2.view = s.view := by
  unfold ensureConvId
  cases t.conversationId with
  | none => rfl
  | some c => rfl

/-! ### Identities -/

/-- A reading of a thread that sees no more than what identifies it, and its mark. -/
class Steady {β : Type*} (g : Thread → β) : Prop where
  eq : ∀ t t' : Thread, t'.ref = t.ref → t'.id = t.id → t'.customer = t.customer →
    t'.conversationId = t.conversationId → t'.isStreaming = t.isStreaming → g t' = g t

/-- A reading of a thread that sees no more than what identifies it. -/
class Blind {β : Type*} (g : Thread → β) : Prop where
  eq : ∀ t t' : Thread, t'.ref = t.ref → t'.id = t.id → t'.customer = t.customer →
    t'.conversationId = t.conversationId → g t' = g t

instance {β : Type*} {g : Thread → β} [hg : Blind g] : Steady g where
  eq := by
    intro t t' hr hi hc hv _
    exact hg.eq t t' hr hi hc hv

structure Ident where
  ref : ℕ
  id : ThreadId
  customer : Text
deriving DecidableEq

def ident (t : Thread) : Ident := ⟨t.ref, t.id, t.customer⟩

instance : Blind ident where
  eq := by
    intro t t' hr hi hc _
    simp only [ident, hr, hi, hc]

/-- The two stores list the same threads, as far as `g` reads them, and the same one is
active. What localStorage has new is what is listed. -/
structure Frame {β : Type*} (g : Thread → β) (s s' : Store) : Prop where
  threads : s'.threads.map g = s.threads.map g
  detached : s'.detached.map g = s.detached.map g
  nextRef : s'.nextRef = s.nextRef
  counter : s'.counter = s.counter
  customer : s'.customer = s.customer
  activeId : s'.activeId = s.activeId
  viewOwner : s'.viewOwner = s.viewOwner
  storage : ∀ k, s'.storage.lookup k = s.storage.lookup k ∨
    k = threadsKey s.customer ∧ ∃ ts, s'.storage.lookup k = some ts ∧ ts.map g = (s.threads.map g).take 50

section Frame
variable {β : Type*} {g : Thread → β}

/-- What changes neither threads nor localStorage. -/
theorem Frame.of_eq {s s' : Store} (h : s'.threads = s.threads) (hd : s'.detached = s.detached) (hn : s'.nextRef = s.nextRef)
    (hc : s'.counter = s.counter) (hcu : s'.customer = s.customer) (ha : s'.activeId = s.activeId)
    (hv : s'.viewOwner = s.viewOwner) (hs : s'.storage = s.storage) : Frame g s s' :=
  ⟨by rw [h], by rw [hd], hn, hc, hcu, ha, hv, fun k => Or.inl (by rw [hs])⟩

theorem Frame.refl (s : Store) : Frame g s s := .of_eq rfl rfl rfl rfl rfl rfl rfl rfl

theorem Frame.trans {a b c : Store} (h : Frame g a b) (h' : Frame g b c) : Frame g a c :=
  { threads := h'.threads.trans h.threads
    detached := h'.detached.trans h.detached
    nextRef := h'.nextRef.trans h.nextRef
    counter := h'.counter.trans h.counter
    customer := h'.customer.trans h.customer
    activeId := h'.activeId.trans h.activeId
    viewOwner := h'.viewOwner.trans h.viewOwner
    storage := by
      intro k
      cases h'.storage k with
      | inl heq =>
        rw [heq]
        exact h.storage k
      | inr hnew =>
        rw [h.customer, h.threads] at hnew
        exact Or.inr hnew }

theorem Frame.update (ref : ℕ) {f : Thread → Thread} (hf : ∀ t, g (f t) = g t) (s : Store) : Frame g s (update ref f s) :=
  ⟨(map_update g ref hf s).1, (map_update g ref hf s).2, rfl, rfl, rfl, rfl, rfl, fun _ => Or.inl rfl⟩

theorem Frame.updateActive {f : Thread → Thread} (hf : ∀ t, g (f t) = g t) (s : Store) : Frame g s (updateActive f s) := by
  unfold Chat.updateActive
  cases activeThread s with
  | none => exact .refl s
  | some t => exact .update t.ref hf s

theorem lookup_persist (s : Store) (k : Text) : (persist s).storage.lookup k =
    if k = threadsKey s.customer then some ((s.threads.take 50).map truncated) else s.storage.lookup k := by
  unfold persist
  split
  · next heq =>
    subst heq
    exact Finmap.lookup_insert _
  · next hne => exact Finmap.lookup_insert_of_ne _ hne

theorem map_truncated [hg : Steady g] (ts : List Thread) : (ts.map truncated).map g = ts.map g := by
  rw [List.map_map]
  apply List.map_congr_left
  intro t _
  exact hg.eq _ _ rfl rfl rfl rfl rfl

theorem Frame.persist [Steady g] (s : Store) : Frame g s (persist s) := by
  refine ⟨rfl, rfl, rfl, rfl, rfl, rfl, rfl, ?_⟩
  intro k
  rw [lookup_persist]
  split
  · next heq => exact Or.inr ⟨heq, _, rfl, by rw [map_truncated, List.map_take]⟩
  · exact Or.inl rfl

theorem frame_persistBubble (conv : Option ConvId) (content : Content) (s : Store) :
    Frame g s (persistBubble conv content s) := by
  unfold persistBubble
  cases conv with
  | none => exact .refl s
  | some c =>
    dsimp only
    split
    · exact .refl s
    · exact .of_eq rfl rfl rfl rfl rfl rfl rfl rfl

theorem Frame.with_sse {s s' : Store} (h : Frame g s s') {sse : Option ℕ} : Frame g s { s' with sse := sse } :=
  ⟨h.threads, h.detached, h.nextRef, h.counter, h.customer, h.activeId, h.viewOwner, h.storage⟩

theorem Frame.with_view {s s' : Store} (h : Frame g s s') {v : View} : Frame g s { s' with view := v } :=
  ⟨h.threads, h.detached, h.nextRef, h.counter, h.customer, h.activeId, h.viewOwner, h.storage⟩

theorem frame_sessionKnown (i : ℕ) (c : Send) (s : Store) : Frame g s (System.sessionKnown i c s) := by
  unfold System.sessionKnown
  dsimp only
  split
  · exact .of_eq rfl rfl rfl rfl rfl rfl rfl rfl
  · split
    · exact .of_eq rfl rfl rfl rfl rfl rfl rfl rfl
    · exact .of_eq rfl rfl rfl rfl rfl rfl rfl rfl

theorem Frame.with_activeId {s s' : Store} (h : Frame g s s') (id : ThreadId) :
    Frame g { s with activeId := id } { s' with activeId := id } :=
  ⟨h.threads, h.detached, h.nextRef, h.counter, h.customer, rfl, h.viewOwner, h.storage⟩

theorem Frame.with_viewOwner {s s' : Store} (h : Frame g s s') (id : ThreadId) :
    Frame g { s with viewOwner := id } { s' with viewOwner := id } :=
  ⟨h.threads, h.detached, h.nextRef, h.counter, h.customer, h.activeId, rfl, h.storage⟩

end Frame

theorem Frame.ids {s s' : Store} (h : Frame ident s s') : s'.threads.map Thread.id = s.threads.map Thread.id := by
  have hcomp : Thread.id = Ident.id ∘ ident := rfl
  rw [hcomp, ← List.map_map, h.threads, List.map_map]

theorem Frame.refs {s s' : Store} (h : Frame ident s s') :
    (s'.threads ++ s'.detached).map Thread.ref = (s.threads ++ s.detached).map Thread.ref := by
  have hcomp : Thread.ref = Ident.ref ∘ ident := rfl
  rw [hcomp, ← List.map_map, ← List.map_map, List.map_append, h.threads, h.detached, ← List.map_append]

theorem Frame.refsUnique {s s' : Store} (h : Frame ident s s') (hu : RefsUnique s) : RefsUnique s' := by
  unfold RefsUnique
  rw [h.refs]
  exact hu

theorem Frame.mem {s s' : Store} (h : Frame ident s s') {t' : Thread} (ht : t' ∈ s'.threads) :
    ∃ t ∈ s.threads, ident t = ident t' := by
  have hmem : ident t' ∈ s'.threads.map ident := List.mem_map_of_mem ht
  rw [h.threads] at hmem
  obtain ⟨t, ht, heq⟩ := List.mem_map.mp hmem
  exact ⟨t, ht, heq⟩

/-! ### The operations of the store -/

section Operations
variable {β : Type*} {g : Thread → β} [Steady g]

/-- `g` does not see what `_ensureConvId` may assign. -/
def Settled (g : Thread → β) (t : Thread) : Prop :=
  t.conversationId ≠ none ∨ ∀ u c, g { u with conversationId := c } = g u

omit [Steady g] in
theorem settled_ident (t : Thread) : Settled ident t := Or.inr fun _ _ => rfl

/-- A thread's id and the conversation it has. -/
def key (t : Thread) : ThreadId × Option ConvId := (t.id, t.conversationId)

instance : Blind key where
  eq := by
    intro t t' _ hi _ hc
    simp only [key, hi, hc]

omit [Steady g] in
theorem Settled.of_key {t t' : Thread} (h : Settled g t) (hk : key t = key t') : Settled g t' := by
  cases h with
  | inl hne =>
    rw [show t.conversationId = t'.conversationId from congrArg Prod.snd hk] at hne
    exact Or.inl hne
  | inr hblind => exact Or.inr hblind

omit [Steady g] in
/-- The threads with the id are settled, also after what keeps their conversations. -/
theorem settled_frame {s s' : Store} (hf : Frame key s s') {id : ThreadId}
    (h : ∀ t ∈ s.threads, t.id = id → Settled g t) : ∀ t ∈ s'.threads, t.id = id → Settled g t := by
  intro t' ht' hid
  have hmem : key t' ∈ s'.threads.map key := List.mem_map_of_mem ht'
  rw [hf.threads] at hmem
  obtain ⟨t, ht, heq⟩ := List.mem_map.mp hmem
  exact (h t ht ((congrArg Prod.fst heq).trans hid)).of_key heq

theorem frame_ensureConvId {t : Thread} (h : Settled g t) (fresh : ConvId) (s : Store) :
    Frame g s (ensureConvId t fresh s).2 := by
  unfold ensureConvId
  cases hc : t.conversationId with
  | some c => exact .refl s
  | none =>
    have hblind := h.resolve_left (by simp [hc])
    exact (Frame.update t.ref (fun u => hblind u (some fresh)) s).trans (.persist _)

theorem frame_syncThreadMessages (now : Text) (s : Store) : Frame g s (syncThreadMessages now s) := by
  unfold syncThreadMessages
  exact (Frame.updateActive (by intro t; exact Steady.eq _ _ rfl rfl rfl rfl rfl) s).trans (.persist _)

theorem frame_parkConversationState (s : Store) : Frame g s (parkConversationState s) := by
  unfold parkConversationState
  exact .updateActive (by intro t; exact Steady.eq _ _ rfl rfl rfl rfl rfl) s

omit [Steady g] in
theorem frame_commitReply (s : Store) : Frame g s (commitReply s) := by
  unfold commitReply
  apply Frame.trans _ (frame_persistBubble _ _ _)
  exact .of_eq rfl rfl rfl rfl rfl rfl rfl rfl

omit [Steady g] in
theorem frame_ingestError (err : ErrorInfo) (s : Store) : Frame g s (ingestError err s) := by
  unfold ingestError
  dsimp only
  split
  · exact .of_eq rfl rfl rfl rfl rfl rfl rfl rfl
  · apply Frame.with_sse
    exact (Frame.with_view (.refl s)).trans (frame_commitReply _)

omit [Steady g] in
theorem frame_ingestStatus (label : Text) (tool : Option Text) (s : Store) : Frame g s (ingestStatus label tool s) := by
  unfold ingestStatus
  dsimp only
  split
  · exact .of_eq rfl rfl rfl rfl rfl rfl rfl rfl
  · exact (frame_commitReply s).trans (.of_eq rfl rfl rfl rfl rfl rfl rfl rfl)

theorem frame_pinSession (chunk : Chunk) (s : Store) : Frame g s (pinSession chunk s) := by
  unfold pinSession
  split
  · dsimp only
    split
    · exact .refl s
    · next t _ =>
      split
      · exact .refl s
      · exact (Frame.update t.ref (by intro t; exact Steady.eq _ _ rfl rfl rfl rfl rfl) s).trans (.persist _)
  · exact .refl s

theorem frame_finishActive (now : Text) (s : Store) : Frame g s (finishActive now s) := by
  unfold finishActive
  dsimp only
  split
  · exact .of_eq rfl rfl rfl rfl rfl rfl rfl rfl
  · apply Frame.trans _ (frame_persistBubble _ _ _)
    apply Frame.trans _ (frame_syncThreadMessages now _)
    exact .of_eq rfl rfl rfl rfl rfl rfl rfl rfl

theorem frame_ingestActive (owner : ThreadId) (chunk : Chunk) (now : Text) (s : Store) :
    Frame g s (ingestActive owner chunk now s) := by
  unfold ingestActive
  split
  · exact frame_ingestError _ s
  · split
    · exact frame_ingestStatus _ _ s
    · dsimp only
      have hpin : Frame g s (pinSession chunk { s with view := { s.view with
          reply := s.view.reply ++ tag owner chunk.text, conv := s.view.conv.or chunk.conversationId } }) := by
        apply Frame.trans _ (frame_pinSession chunk _)
        exact (Frame.refl s).with_view
      split
      · exact hpin.trans (frame_finishActive now _)
      · exact hpin

theorem frame_beginTurn (content now : Text) (s : Store) : Frame g s (beginTurn content now s) := by
  unfold beginTurn
  apply Frame.trans _ (.updateActive (by intro t; exact Steady.eq _ _ rfl rfl rfl rfl rfl) _)
  exact .of_eq rfl rfl rfl rfl rfl rfl rfl rfl

theorem steady_unpark (t : Thread) : g (unpark t) = g t := by
  unfold unpark
  split
  · exact Steady.eq _ _ rfl rfl rfl rfl rfl
  · rfl

theorem frame_selectResolved_finish (id : ThreadId) (conv : Option Conversation) (before t : Option Thread)
    (ms : List Message) (s : Store) : Frame g { s with viewOwner := id } (selectResolved.finish id conv before t ms s) := by
  unfold selectResolved.finish
  dsimp only
  have hsession : Frame g s (t.elim s fun t =>
      if mergedSession t conv = t.ccSessionId then s
      else persist (update t.ref (fun u => { u with ccSessionId := mergedSession t conv }) s)) := by
    cases t with
    | none => exact .refl s
    | some t =>
      dsimp only [Option.elim_some]
      split
      · exact .refl s
      · exact (Frame.update t.ref (by intro t; exact Steady.eq _ _ rfl rfl rfl rfl rfl) s).trans (.persist _)
  cases t with
  | none =>
    exact ⟨hsession.threads, hsession.detached, hsession.nextRef, hsession.counter, hsession.customer,
      hsession.activeId, rfl, hsession.storage⟩
  | some t =>
    have h := hsession.trans (.update t.ref steady_unpark _)
    exact ⟨h.threads, h.detached, h.nextRef, h.counter, h.customer, h.activeId, rfl, h.storage⟩

theorem frame_selectResolved (id : ThreadId) (target : Option ℕ) (conv : Option Conversation) (s : Store) :
    Frame g { s with viewOwner := id } (selectResolved id target conv s) := by
  unfold selectResolved
  dsimp only
  split
  · cases target with
    | none => exact frame_selectResolved_finish ..
    | some ref =>
      refine Frame.trans ?_ (frame_selectResolved_finish ..)
      exact Frame.with_viewOwner (.update ref (by intro t; exact Steady.eq _ _ rfl rfl rfl rfl rfl) s) id
  · exact frame_selectResolved_finish ..

end Operations

/-! ### The operations that change marks, the list or the active thread -/

section Marked
variable {β : Type*} {g : Thread → β} [Blind g]

theorem frame_detachActiveStream (s : Store) : Frame g s (detachActiveStream s) := by
  unfold detachActiveStream
  split
  · exact .updateActive (by intro t; exact Blind.eq _ _ rfl rfl rfl rfl) s
  · exact .refl s

theorem frame_finishBackground (t : Thread) (now : Text) (s : Store) : Frame g s (finishBackground t now s) := by
  unfold finishBackground
  dsimp only
  apply Frame.trans _ (.persist _)
  apply Frame.trans _ (.update t.ref (by intro t; exact Blind.eq _ _ rfl rfl rfl rfl) _)
  split
  · exact .refl s
  · exact frame_persistBubble _ _ _

theorem frame_ingestBackground (owner : ThreadId) (chunk : Chunk) (t : Thread) (now : Text) (s : Store) :
    Frame g s (ingestBackground owner chunk t now s) := by
  unfold ingestBackground
  split
  · split
    · exact .refl s
    · exact .update t.ref (by intro t; exact Blind.eq _ _ rfl rfl rfl rfl) s
  · split
    · split
      · exact .refl s
      · exact (Frame.update t.ref (by intro t; exact Blind.eq _ _ rfl rfl rfl rfl) s).trans (.persist _)
    · split
      · exact frame_finishBackground t now s
      · dsimp only
        split
        · exact (Frame.update t.ref (by intro t; exact Blind.eq _ _ rfl rfl rfl rfl) s).trans (frame_finishBackground _ now _)
        · exact .update t.ref (by intro t; exact Blind.eq _ _ rfl rfl rfl rfl) s

theorem frame_ingestChunk (owner : ThreadId) (chunk : Chunk) (source : Option ℕ) (now : Text) (s : Store) :
    Frame g s (ingestChunk owner chunk source now s) := by
  unfold ingestChunk
  split
  · exact frame_ingestActive owner chunk now s
  · exact frame_ingestBackground owner chunk _ now s
  · exact .refl s

/-- The list after `createThread`, up to the fields that identify its threads. -/
def created (cfg : Config) (fresh : ConvId) (now : Text) (s : Store) : Store :=
  { s with
    threads := newThread cfg s.nextRef (threadId s.counter) s.customer fresh now :: s.threads
    nextRef := s.nextRef + 1, counter := s.counter + 1
    activeId := threadId s.counter, viewOwner := threadId s.counter }

theorem frame_createThread (cfg : Config) (fresh : ConvId) (now : Text) (s : Store) :
    Frame g (created cfg fresh now s) (createThread cfg fresh now s) := by
  have h : Frame g s (syncThreadMessages now (parkConversationState (detachActiveStream s))) :=
    ((frame_detachActiveStream s).trans (frame_parkConversationState _)).trans (frame_syncThreadMessages now _)
  unfold createThread
  constructor
  · simp only [persist, created, List.map_cons, h.threads, h.nextRef, h.counter, h.customer]
  · exact h.detached
  · exact congrArg (· + 1) h.nextRef
  · exact congrArg (· + 1) h.counter
  · exact h.customer
  · exact congrArg threadId h.counter
  · exact congrArg threadId h.counter
  · intro k
    dsimp only
    rw [lookup_persist]
    dsimp only
    rw [h.customer]
    split
    · next heq =>
      refine Or.inr ⟨heq, _, rfl, ?_⟩
      rw [map_truncated, List.map_take]
      simp only [created, List.map_cons, h.threads, h.nextRef, h.counter]
    · next hne =>
      left
      exact (h.storage k).resolve_right fun hnew => hne hnew.1

/-- What `selectThread` does to the thread it leaves. -/
def leave (s : Store) : Store :=
  parkConversationState
    (updateActive (fun t => { t with messages := (detachActiveStream s).view.messages }) (detachActiveStream s))

theorem frame_leave (s : Store) : Frame g s (leave s) := by
  unfold leave
  apply Frame.trans _ (frame_parkConversationState _)
  exact (frame_detachActiveStream s).trans (.updateActive (by intro t; exact Blind.eq _ _ rfl rfl rfl rfl) _)

theorem frame_selectThread {id : ThreadId} {s : Store} (hset : ∀ t ∈ s.threads, t.id = id → Settled g t) (fresh : ConvId) :
    Frame g { s with activeId := id } (selectThread id fresh s).2 := by
  have hleave : Frame g s (leave s) := frame_leave s
  unfold selectThread
  dsimp only
  split
  · exact (hleave.with_activeId id).with_view
  · next t hf =>
    obtain ⟨ht, hid⟩ := findThread_some hf
    have hsettled := settled_frame (frame_leave s) hset t ht hid
    exact ((hleave.with_activeId id).trans (frame_ensureConvId hsettled fresh _)).with_view

end Marked

/-! ### What localStorage holds -/

theorem savedThreads_persist (s : Store) : savedThreads (persist s) = (s.threads.take 50).map truncated := by
  have h := lookup_persist s (threadsKey s.customer)
  rw [if_pos rfl] at h
  unfold savedThreads
  rw [show (persist s).customer = s.customer from rfl, h]

/-- What the customer has saved is what was saved before, or the beginning of the list. -/
theorem Frame.saved {β : Type*} {g : Thread → β} {s s' : Store} (hf : Frame g s s') :
    (savedThreads s').map g = (savedThreads s).map g ∨ (savedThreads s').map g = (s.threads.map g).take 50 := by
  unfold savedThreads
  rw [hf.customer]
  cases hf.storage (threadsKey s.customer) with
  | inr hnew =>
    obtain ⟨-, ts, hts, hmap⟩ := hnew
    rw [hts]
    exact Or.inr hmap
  | inl heq =>
    rw [heq]
    cases hl : s.storage.lookup (threadsKey s.customer) with
    | some ts => exact Or.inl rfl
    | none =>
      cases hf.storage threadsKeyPrefix with
      | inl heq' =>
        left
        dsimp only
        rw [heq']
      | inr hnew =>
        rw [← hnew.1] at heq hl
        obtain ⟨-, ts, hts, -⟩ := hnew
        rw [heq, hl] at hts
        cases hts

/-! ### References -/

/-- The objects of the list and those that left it are all different, and older than the next one. -/
structure WellFormed (s : Store) : Prop where
  unique : RefsUnique s
  below : ∀ r ∈ (s.threads ++ s.detached).map Thread.ref, r < s.nextRef

theorem WellFormed.of_perm {s s' : Store} (h : WellFormed s)
    (hp : ((s'.threads ++ s'.detached).map Thread.ref).Perm ((s.threads ++ s.detached).map Thread.ref))
    (hn : s'.nextRef = s.nextRef) : WellFormed s' := by
  constructor
  · exact hp.nodup_iff.mpr h.unique
  · intro r hr
    rw [hn]
    exact h.below r (hp.mem_iff.mp hr)

theorem Frame.wellFormed {s s' : Store} (h : Frame ident s s') (hw : WellFormed s) : WellFormed s' :=
  hw.of_perm (by rw [h.refs]) h.nextRef

/-- New objects that take the next references. -/
theorem WellFormed.push {s s' : Store} (h : WellFormed s) {n : ℕ}
    (hp : ((s'.threads ++ s'.detached).map Thread.ref).Perm
      (List.range' s.nextRef n ++ (s.threads ++ s.detached).map Thread.ref))
    (hn : s'.nextRef = s.nextRef + n) : WellFormed s' := by
  constructor
  · apply hp.nodup_iff.mpr
    apply List.nodup_append'.mpr
    refine ⟨List.nodup_range', h.unique, ?_⟩
    intro r hr hr'
    have hge := (List.mem_range'_1.mp hr).1
    have hlt := h.below r hr'
    omega
  · intro r hr
    rw [hn]
    cases List.mem_append.mp (hp.mem_iff.mp hr) with
    | inl hr => exact (List.mem_range'_1.mp hr).2
    | inr hr =>
      have hlt := h.below r hr
      omega

theorem wellFormed_createThread {s : Store} (h : WellFormed s) (cfg : Config) (fresh : ConvId) (now : Text) :
    WellFormed (createThread cfg fresh now s) := by
  apply (frame_createThread cfg fresh now s).wellFormed
  apply h.push (n := 1)
  · exact List.Perm.refl _
  · rfl

theorem wellFormed_spliceThread {s : Store} (h : WellFormed s) (idx : ℕ) : WellFormed (spliceThread idx s) := by
  refine h.of_perm ?_ rfl
  apply List.Perm.map
  dsimp only [spliceThread]
  cases hi : s.threads[idx]? with
  | none =>
    rw [List.eraseIdx_of_length_le (List.getElem?_eq_none_iff.mp hi), Option.toList_none, List.append_nil]
  | some t =>
    obtain ⟨hlt, rfl⟩ := List.getElem?_eq_some_iff.mp hi
    have hp := List.getElem_cons_eraseIdx_perm hlt
    have hrest : (s.threads.eraseIdx idx ++ (s.detached ++ [s.threads[idx]])).Perm
        (s.threads[idx] :: s.threads.eraseIdx idx ++ s.detached) := by
      rw [← List.append_assoc]
      exact (List.perm_append_singleton _ _)
    exact hrest.trans (hp.append_right s.detached)

theorem mergeListed_cases (customer : Text) (s : Store) (l : Listed) :
    (∃ t, ident t = ⟨s.nextRef, l.id, customer⟩ ∧ t.conversationId = none ∧ t.isStreaming = false ∧ t.messages = [] ∧
      t.bgReply = [] ∧ t.bgSession = none ∧ t.bgConv = none ∧ (∀ u ∈ s.threads, u.id ≠ l.id) ∧
      mergeListed customer s l = { s with threads := s.threads ++ [t], nextRef := s.nextRef + 1 }) ∨
    ((∃ u ∈ s.threads, u.id = l.id) ∧ (mergeListed customer s l = s ∨
      ∃ ref, mergeListed customer s l = update ref (fun t => { t with updatedAt := l.updatedAt }) s)) := by
  unfold mergeListed
  cases hf : findThread l.id s with
  | none => exact Or.inl ⟨_, rfl, rfl, rfl, rfl, rfl, rfl, rfl, findThread_none hf, rfl⟩
  | some t =>
    right
    refine ⟨⟨t, findThread_some hf⟩, ?_⟩
    dsimp only
    split
    · exact Or.inr ⟨t.ref, rfl⟩
    · exact Or.inl rfl

theorem wellFormed_mergeListed {s : Store} (h : WellFormed s) (customer : Text) (l : Listed) :
    WellFormed (mergeListed customer s l) := by
  rcases mergeListed_cases customer s l with ⟨t, hid, -, -, -, -, -, -, -, heq⟩ | ⟨-, heq | ⟨ref, heq⟩⟩
  · rw [heq]
    apply h.push (n := 1) _ rfl
    have href : t.ref = s.nextRef := congrArg Ident.ref hid
    simp only [List.map_append, List.map_cons, List.map_nil, href, List.range'_one, List.append_assoc]
    exact List.perm_middle.trans (by simp)
  · rw [heq]
    exact h
  · rw [heq]
    exact (Frame.update ref (by intro t; exact Blind.eq _ _ rfl rfl rfl rfl) s).wellFormed h

theorem wellFormed_fetchHistory {s : Store} (h : WellFormed s) (cfg : Config) (customer : Text) (listing : List Listed) :
    WellFormed (fetchHistory cfg customer listing s) := by
  unfold fetchHistory
  split
  · exact h
  · have hfold : WellFormed (listing.foldl (mergeListed customer) s) := by
      induction listing generalizing s with
      | nil => exact h
      | cons l ls ih =>
        by_cases hls : ls = []
        · subst hls
          exact wellFormed_mergeListed h customer l
        · exact ih (wellFormed_mergeListed h customer l) hls
    apply (Frame.persist _).wellFormed
    refine hfold.of_perm ?_ rfl
    apply List.Perm.map
    exact (List.mergeSort_perm _ _).append_right _

theorem loaded_refs (cfg : Config) (used : ℕ) (now : Text) (s : Store) :
    (loadPersistedThreads cfg used now s).1.map Thread.ref =
      List.range' s.nextRef (loadPersistedThreads cfg used now s).1.length := by
  unfold loadPersistedThreads
  dsimp only
  split
  · rfl
  · apply List.ext_getElem
    · simp
    · intro n h h'
      simp [revived]

theorem wellFormed_adoptThreads {s : Store} (h : WellFormed s) {loaded : List Thread × ℕ}
    (hl : loaded.1.map Thread.ref = List.range' s.nextRef loaded.1.length) : WellFormed (adoptThreads loaded s) := by
  apply h.push (n := loaded.1.length) _ rfl
  simp only [adoptThreads, List.map_append, hl]
  exact List.Perm.append_left _ List.perm_append_comm

theorem wellFormed_reload {s : Store} (h : WellFormed s) {loaded : List Thread × ℕ}
    (hl : loaded.1.map Thread.ref = List.range' s.nextRef loaded.1.length) : WellFormed (reload loaded s) := by
  have hbase : WellFormed
      { s with view := .empty, gotCcDone := false, lastSent := none, fallbackUsed := false, sse := none } :=
    ⟨h.unique, h.below⟩
  exact wellFormed_adoptThreads hbase hl

end AgentWorkflow.Desktop.Chat
