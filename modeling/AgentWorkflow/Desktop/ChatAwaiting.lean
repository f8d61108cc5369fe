import AgentWorkflow.Desktop.ChatLeaves
import AgentWorkflow.Desktop.ChatSelect

/-!
# A turn on its way

From the send of a turn to the exit of its session: as long as nothing makes a message
in its thread, the question stays the last one there, and only that thread comes to
show a session of its conversation.
-/

namespace AgentWorkflow.Desktop.Chat
open AgentWorkflow.Lib AgentWorkflow.Lib.Calendar

/-- The calls and the sessions of turn `n` are those of its conversation. -/
structure Linked (n : ℕ) (conv : ConvId) (cs : List Send) (ss : List Session) : Prop where
  sends : ∀ c ∈ cs, c.turn = n → c.conv = conv
  started : ∀ c ∈ cs, ∀ i, c.pc = .started i → ∃ x, ss[i]? = some x ∧ x.conv = c.conv
  sessions : ∀ x ∈ ss, x.turn = n → x.conv = conv

/-- The sessions are still there. -/
def SessionsKept (ss ss' : List Session) : Prop :=
  ∀ (i : ℕ) (x : Session), ss[i]? = some x → ∃ x' : Session, ss'[i]? = some x' ∧ x'.conv = x.conv

theorem SessionsKept.refl (ss : List Session) : SessionsKept ss ss := fun _ x hx => ⟨x, hx, rfl⟩

theorem sessionsKept_modify (ss : List Session) (i : ℕ) {f : Session → Session} (hf : ∀ x, (f x).conv = x.conv) :
    SessionsKept ss (ss.modify i f) := by
  intro j x hx
  rw [List.getElem?_modify, hx]
  refine ⟨_, rfl, ?_⟩
  split
  · exact hf x
  · rfl

theorem sessionsKept_set {ss : List Session} {i : ℕ} {x x' : Session} (hx : ss[i]? = some x) (hconv : x'.conv = x.conv) :
    SessionsKept ss (ss.set i x') := by
  intro j y hy
  by_cases hji : j = i
  · subst hji
    rw [hx] at hy
    refine ⟨x', ?_, hconv.trans (congrArg Session.conv (Option.some.inj hy))⟩
    rw [List.getElem?_set_self (List.getElem?_eq_some_iff.mp hx).1]
  · exact ⟨y, by rw [List.getElem?_set_ne (Ne.symm hji)]; exact hy, rfl⟩

theorem sessionsKept_append (ss : List Session) (x : Session) : SessionsKept ss (ss ++ [x]) := by
  intro i y hy
  exact ⟨y, by rw [List.getElem?_append_left (List.getElem?_eq_some_iff.mp hy).1]; exact hy, rfl⟩

section
variable {id : ThreadId} {conv : ConvId} {ss ss' : List Session}

theorem SessionsApart.kept {ts : List Thread} (h : SessionsApart id conv ss ts) (hk : SessionsKept ss ss') :
    SessionsApart id conv ss' ts := by
  intro t ht hid i hi
  obtain ⟨x, hx, hne⟩ := h t ht hid i hi
  obtain ⟨x', hx', hconv⟩ := hk i x hx
  exact ⟨x', hx', by rw [hconv]; exact hne⟩

theorem ViewApart.kept {s : Store} (h : ViewApart id conv ss s) (hk : SessionsKept ss ss') : ViewApart id conv ss' s := by
  intro ho i hi
  obtain ⟨x, hx, hne⟩ := h ho i hi
  obtain ⟨x', hx', hconv⟩ := hk i x hx
  exact ⟨x', hx', by rw [hconv]; exact hne⟩

end

namespace Linked
variable {n : ℕ} {conv : ConvId} {cs cs' : List Send} {ss ss' : List Session}

theorem append (h : Linked n conv cs ss) {c : Send} (hc : c.turn = n → c.conv = conv) (hpc : c.pc = .starting) :
    Linked n conv (cs ++ [c]) ss := by
  refine ⟨?_, ?_, h.sessions⟩
  · intro d hd
    rcases List.mem_append.mp hd with hd | hd
    · exact h.sends d hd
    · rw [List.mem_singleton.mp hd]
      exact hc
  · intro d hd i hi
    rcases List.mem_append.mp hd with hd | hd
    · exact h.started d hd i hi
    · rw [List.mem_singleton.mp hd, hpc] at hi
      cases hi

/-- A call goes on. -/
theorem set (h : Linked n conv cs ss) {k : ℕ} {c c' : Send} (hc : cs[k]? = some c) (hturn : c'.turn = c.turn)
    (hconv : c'.conv = c.conv) (hpc : ∀ i, c'.pc = .started i → ∃ x, ss[i]? = some x ∧ x.conv = c'.conv) :
    Linked n conv (cs.set k c') ss := by
  have hmem : c ∈ cs := List.mem_of_getElem? hc
  refine ⟨?_, ?_, h.sessions⟩
  · intro d hd
    rcases List.mem_or_eq_of_mem_set hd with hd | rfl
    · exact h.sends d hd
    · rw [hturn, hconv]
      exact h.sends c hmem
  · intro d hd
    rcases List.mem_or_eq_of_mem_set hd with hd | rfl
    · exact h.started d hd
    · exact hpc

theorem kept (h : Linked n conv cs ss) (hk : SessionsKept ss ss') (hss : ∀ x ∈ ss', x.turn = n → x.conv = conv) :
    Linked n conv cs ss' := by
  refine ⟨h.sends, ?_, hss⟩
  intro c hc i hi
  obtain ⟨x, hx, hconv⟩ := h.started c hc i hi
  obtain ⟨x', hx', hconv'⟩ := hk i x hx
  exact ⟨x', hx', hconv'.trans hconv⟩

end Linked

namespace System
variable (cfg : Config)

/-- Turn `n` of the thread `id` is on its way: its question `q` is the last message of
the thread, and sessions of its conversation are shown for that thread only. -/
structure Awaiting (id : ThreadId) (n : ℕ) (q : Message) (conv : ConvId) (s : System) : Prop where
  wellFormed : WellFormed s.store
  idle : Idle s → s.store.viewOwner = s.store.activeId
  waiting : ∀ c ∈ s.selects, c.pending = true → c.id = s.store.activeId ∧ ∃ t ∈ s.store.threads, c.target = some t.ref ∧ t.id = c.id
  sole : Sole id s.store
  unborn : ∀ m, s.store.counter ≤ m → threadId m ≠ id
  shown : s.store.viewOwner = id → s.store.view.messages.getLast? = some q
  kept : ¬ Idle s ∨ s.store.activeId ≠ id → EndsWith id q s.store.threads
  view : ViewApart id conv s.sessions s.store
  threads : SessionsApart id conv s.sessions s.store.threads
  turn : n < s.turns.length
  linked : Linked n conv s.sends s.sessions

section
variable {cfg} {id : ThreadId} {n : ℕ} {q : Message} {conv : ConvId} {s s' : System}

/-- A step that leaves the thread and the list of threads. -/
theorem Awaiting.leaves (h : Awaiting id n q conv s) (hl : Leaves id s.store s'.store) (hf : Frame ident s.store s'.store)
    (hselects : s'.selects = s.selects) (hturns : s.turns.length ≤ s'.turns.length) (hss : SessionsKept s.sessions s'.sessions)
    (hlinked : Linked n conv s'.sends s'.sessions) : Awaiting id n q conv s' := by
  have hidle : Idle s' ↔ Idle s := by
    unfold Idle
    rw [hselects]
  refine ⟨hf.wellFormed h.wellFormed, ?_, ?_, h.sole.frame hf, ?_, ?_, ?_, ?_, ?_, lt_of_lt_of_le h.turn hturns, hlinked⟩
  · intro hi
    rw [hl.viewOwner, hl.activeId]
    exact h.idle (hidle.mp hi)
  · intro c hc hp
    rw [hselects] at hc
    obtain ⟨hactive, t, ht, htarget, hid⟩ := h.waiting c hc hp
    have hmem : ident t ∈ s'.store.threads.map ident := by
      rw [hf.threads]
      exact List.mem_map_of_mem ht
    obtain ⟨t', ht', hident⟩ := List.mem_map.mp hmem
    refine ⟨hactive.trans hl.activeId.symm, t', ht', ?_, (congrArg Ident.id hident).trans hid⟩
    rw [htarget]
    exact congrArg some (congrArg Ident.ref hident).symm
  · intro m hm
    rw [hf.counter] at hm
    exact h.unborn m hm
  · intro howner
    have howner' := hl.viewOwner.symm.trans howner
    rw [hl.messages howner']
    exact h.shown howner'
  · intro hstale
    rw [hidle, hl.activeId] at hstale
    exact (h.kept hstale).leaves hl
  · exact (h.view.leaves hl).kept hss
  · exact (h.threads.leaves hl).kept hss

/-- A step that changes the store only. -/
theorem Awaiting.store (h : Awaiting id n q conv s) {r : Store} (hl : Leaves id s.store r) (hf : Frame ident s.store r) :
    Awaiting id n q conv { s with store := r } :=
  h.leaves hl hf rfl le_rfl (.refl _) h.linked

/-! ### Navigation -/

theorem awaiting_createThread (h : Awaiting id n q conv s) (hidle : Idle s) (now : Text) :
    Awaiting id n q conv (createThread cfg now s) := by
  have howner := h.idle hidle
  have hu := h.wellFormed.unique
  have hd := frame_detachActiveStream (g := ident) s.store
  have hpark : Frame ident s.store (parkConversationState (detachActiveStream s.store)) :=
    hd.trans (frame_parkConversationState _)
  have hsync : Frame ident s.store (syncThreadMessages now (parkConversationState (detachActiveStream s.store))) :=
    hpark.trans (frame_syncThreadMessages now _)
  have hnew : threadId s.store.counter ≠ id := h.unborn _ le_rfl
  have hends : EndsWith id q (syncThreadMessages now (parkConversationState (detachActiveStream s.store))).threads := by
    have hlast (ha : (parkConversationState (detachActiveStream s.store)).activeId = id) :
        s.store.view.messages.getLast? = some q :=
      h.shown (howner.trans (hpark.activeId.symm.trans ha))
    refine EndsWith.take (s := parkConversationState (detachActiveStream s.store)) ?_ (hpark.refsUnique hu) (h.sole.frame hpark)
      hlast (fun _ => rfl) ?_
    · rw [hpark.activeId]
      exact fun ha => ((h.kept (Or.inr ha)).detach).updateActive (fun _ => rfl) fun _ => rfl
    · intro t
      dsimp only
      rw [view_parkConversationState, view_detachActiveStream]
  have hapart : SessionsApart id conv s.sessions (syncThreadMessages now (parkConversationState (detachActiveStream s.store))).threads := by
    refine SessionsApart.keep (s := parkConversationState (detachActiveStream s.store)) ?_ (hpark.refsUnique hu) (fun _ => rfl)
      (fun _ => rfl)
    exact (h.threads.detach hu h.view howner).keep (hd.refsUnique hu) (fun _ => rfl) (fun _ => rfl)
  have hcounter : (syncThreadMessages now (parkConversationState (detachActiveStream s.store))).counter = s.store.counter :=
    hsync.counter
  refine ⟨wellFormed_createThread h.wellFormed cfg _ now, fun _ => rfl, ?_, ?_, ?_, ?_, ?_, ?_, ?_, h.turn, h.linked⟩
  · intro c hc hp
    rw [hidle c hc] at hp
    cases hp
  · intro t ht u hu' hid hid'
    dsimp only [createThread, Chat.createThread, persist] at ht hu'
    rw [hcounter] at ht hu'
    rcases List.mem_cons.mp ht with rfl | ht
    · exact absurd hid hnew
    · rcases List.mem_cons.mp hu' with rfl | hu'
      · exact absurd hid' hnew
      · exact (h.sole.frame hsync) t ht u hu' hid hid'
  · intro m hm
    dsimp only [createThread, Chat.createThread, persist] at hm
    rw [hcounter] at hm
    exact h.unborn m (by omega)
  · intro heq
    dsimp only [createThread, Chat.createThread, persist] at heq
    rw [hcounter] at heq
    exact absurd heq hnew
  · intro _ t ht hid
    dsimp only [createThread, Chat.createThread, persist] at ht
    rw [hcounter] at ht
    rcases List.mem_cons.mp ht with rfl | ht
    · exact absurd hid hnew
    · exact hends t ht hid
  · intro _ i hi
    cases hi
  · intro t ht hid i hi
    dsimp only [createThread, Chat.createThread, persist] at ht
    rcases List.mem_cons.mp ht with rfl | ht
    · cases hi
    · exact hapart t ht hid i hi

theorem awaiting_selectThread (h : Awaiting id n q conv s) {id' : ThreadId}
    (halone : s.store.activeId = id' ∨ (Idle s ∧ ∃ t ∈ s.store.threads, t.id = id')) :
    Awaiting id n q conv (selectThread cfg id' false s) := by
  unfold selectThread
  split
  · simp only [Bool.false_eq_true, if_false]
    exact h
  next hne =>
    obtain ⟨hidle, hlisted⟩ := halone.resolve_left hne
    have howner := h.idle hidle
    have hu := h.wellFormed.unique
    have hframe : Frame ident { s.store with activeId := id' } (Chat.selectThread id' (nextConv cfg s) s.store).2 :=
      frame_selectThread (fun t _ _ => settled_ident t) _
    obtain ⟨r, hleaves, hthreads, hmessages, hsession, hviewOwner, hactive⟩ :=
      leaves_selectThread id id' (nextConv cfg s) s.store
    obtain ⟨t, ht, htid, heq⟩ := selectThread_found (nextConv cfg s) hlisted
    have hends : EndsWith id q (Chat.selectThread id' (nextConv cfg s) s.store).2.threads := by
      rw [hthreads]
      refine EndsWith.leaves (s := { leave s.store with activeId := id' }) ?_ hleaves
      exact endsWith_leave (fun ha => h.kept (Or.inr ha)) hu h.sole fun ha => h.shown (howner.trans ha)
    have hapart : SessionsApart id conv s.sessions (Chat.selectThread id' (nextConv cfg s) s.store).2.threads := by
      rw [hthreads]
      refine SessionsApart.leaves (s := { leave s.store with activeId := id' }) ?_ hleaves
      exact sessionsApart_leave h.threads hu h.view howner
    have hbusy : ¬ Idle { s with
        store := (Chat.selectThread id' (nextConv cfg s) s.store).2
        selects := s.selects ++ [⟨id', (Chat.selectThread id' (nextConv cfg s) s.store).1, false, true⟩]
        convs := s.convs ++ [id'] } := by
      intro hi
      have hpending := hi ⟨id', (Chat.selectThread id' (nextConv cfg s) s.store).1, false, true⟩ (by simp)
      cases hpending
    refine ⟨hframe.wellFormed ⟨hu, h.wellFormed.below⟩, fun hi => absurd hi hbusy, ?_, ?_, ?_, ?_, fun _ => hends, ?_,
      hapart, h.turn, h.linked⟩
    · intro c hc hp
      rcases List.mem_append.mp hc with hc | hc
      · rw [hidle c hc] at hp
        cases hp
      · rw [List.mem_singleton.mp hc]
        have hmem : ident t ∈ (Chat.selectThread id' (nextConv cfg s) s.store).2.threads.map ident := by
          rw [hframe.threads]
          show ident t ∈ s.store.threads.map ident
          rw [← (frame_leave (g := ident) s.store).threads]
          exact List.mem_map_of_mem ht
        obtain ⟨t', ht', hident⟩ := List.mem_map.mp hmem
        refine ⟨hactive.symm, t', ht', ?_, (congrArg Ident.id hident).trans htid⟩
        rw [heq]
        exact congrArg some (congrArg Ident.ref hident).symm
    · exact Sole.frame (s := { s.store with activeId := id' }) h.sole hframe
    · intro m hm
      rw [hframe.counter] at hm
      exact h.unborn m hm
    · intro ho
      rw [hmessages]
      exact h.shown (hviewOwner.symm.trans ho)
    · intro ho i hi
      dsimp only at ho hi
      rw [hviewOwner] at ho
      rw [hsession] at hi
      exact h.view ho i hi

theorem awaiting_conversation (h : Awaiting id n q conv s) (k : ℕ) (answer : Option Conversation)
    (hquiet : ∀ c ∈ s.selects[k]?, c.id = id →
      ∀ ms ∈ cloudWins (c.target.bind fun ref => lookup ref s.store) answer, (tagged id ms).getLast? = some q) :
    Awaiting id n q conv (conversation k answer s) := by
  unfold conversation
  cases hc : s.selects[k]? with
  | none => exact h
  | some c =>
    dsimp only
    split
    · exact h
    next hpending =>
      have hp : c.pending = true := by simpa using hpending
      have hcmem : c ∈ s.selects := List.mem_of_getElem? hc
      have hu := h.wellFormed.unique
      obtain ⟨hactive, t, ht, htarget, htid⟩ := h.waiting c hcmem hp
      have hbusy : ¬ Idle s := fun hi => by simp [hi c hcmem] at hp
      have hends := h.kept (Or.inl hbusy)
      have hlookup : (c.target.bind fun ref => lookup ref s.store) = some t := by
        rw [htarget]
        exact hu.lookup ht
      have hframe := frame_selectResolved (g := ident) c.id c.target answer s.store
      have hview : (selectResolved c.id c.target answer s.store).view =
          restore (some t) { s.store.view with messages := ((cloudWins (some t) answer).map (tagged c.id)).getD t.messages } := by
        rw [htarget]
        exact view_selectResolved (hu.lookup ht) answer
      have hmessages : (restore (some t) { s.store.view with
          messages := ((cloudWins (some t) answer).map (tagged c.id)).getD t.messages }).messages =
            ((cloudWins (some t) answer).map (tagged c.id)).getD t.messages := by
        unfold restore
        dsimp only
        split <;> rfl
      have hsession : ∀ i, (restore (some t) { s.store.view with
          messages := ((cloudWins (some t) answer).map (tagged c.id)).getD t.messages }).session = some i → t.bgSession = some i := by
        intro i hi
        unfold restore at hi
        dsimp only at hi
        split at hi
        · exact hi
        · cases hi
      have hthreads := threads_selectResolved c.id c.target answer s.store
      rw [hlookup] at hthreads
      have hcloud : c.id = id → ∀ ms, cloudWins (some t) answer = some ms → (tagged id ms).getLast? = some q := by
        intro heq ms hms
        refine hquiet c hc heq ms ?_
        rw [hlookup]
        exact hms
      have hends' : EndsWith id q (selectResolved c.id c.target answer s.store).threads := by
        intro t' ht' hid'
        obtain ⟨u, hmem, -, hsame, hm, -⟩ := hthreads t' ht'
        rcases hm with hm | ⟨href, ms, hms, hm⟩
        · rw [hm]
          exact hends u hmem (hsame.symm.trans hid')
        · have hut : u = t := hu.eq_threads hmem ht (by rw [htarget] at href; exact (Option.some.inj href).symm)
          have heq : c.id = id := by rw [← htid, ← hut, ← hsame, hid']
          rw [hm, heq]
          exact hcloud heq ms hms
      have hapart' : SessionsApart id conv s.sessions (selectResolved c.id c.target answer s.store).threads := by
        intro t' ht' hid' i hi
        obtain ⟨u, hmem, -, hsame, -, hs⟩ := hthreads t' ht'
        rcases hs with hs | hs
        · rw [hs] at hi
          exact h.threads u hmem (fun heq => hid' (hsame.trans heq)) i hi
        · rw [hs] at hi
          cases hi
      have hresult : Awaiting id n q conv
          { s with selects := s.selects.set k { c with pending := false }, store := selectResolved c.id c.target answer s.store } := by
        refine ⟨hframe.wellFormed ⟨hu, h.wellFormed.below⟩, ?_, ?_, ?_, ?_, ?_, fun _ => hends', ?_, hapart', h.turn, h.linked⟩
        · intro _
          dsimp only
          rw [hframe.viewOwner, hframe.activeId]
          exact hactive
        · intro d hd hdp
          have hold : d ∈ s.selects := by
            rcases List.mem_or_eq_of_mem_set hd with hmem | heq
            · exact hmem
            · rw [heq] at hdp
              cases hdp
          obtain ⟨hdactive, u, hmem, hdtarget, hdid⟩ := h.waiting d hold hdp
          have hmap : ident u ∈ (selectResolved c.id c.target answer s.store).threads.map ident := by
            rw [hframe.threads]
            exact List.mem_map_of_mem hmem
          obtain ⟨u', hu', hident⟩ := List.mem_map.mp hmap
          refine ⟨hdactive.trans hframe.activeId.symm, u', hu', ?_, (congrArg Ident.id hident).trans hdid⟩
          rw [hdtarget]
          exact congrArg some (congrArg Ident.ref hident).symm
        · exact Sole.frame (s := { s.store with viewOwner := c.id }) h.sole hframe
        · intro m hm
          dsimp only at hm
          rw [hframe.counter] at hm
          exact h.unborn m hm
        · intro ho
          have heq : c.id = id := hframe.viewOwner.symm.trans ho
          dsimp only
          rw [hview, hmessages]
          cases hms : cloudWins (some t) answer with
          | none => exact hends t ht (htid.trans heq)
          | some ms =>
            rw [heq]
            exact hcloud heq ms hms
        · intro ho i hi
          have hne : t.id ≠ id := fun heq => ho (hframe.viewOwner.trans (htid.symm.trans heq))
          dsimp only at hi
          rw [hview] at hi
          exact h.threads t ht hne i (hsession i hi)
      split
      · exact hresult.store (leaves_persist _) (.persist _)
      · exact hresult

/-! ### The other steps -/

theorem Awaiting.quiet (h : Awaiting id n q conv s) {a : Action} (ha : a.quiet = true)
    (hl : Leaves id s.store (step cfg s a).store) (hss : SessionsKept s.sessions (step cfg s a).sessions)
    (hlinked : Linked n conv (step cfg s a).sends (step cfg s a).sessions) : Awaiting id n q conv (step cfg s a) := by
  refine h.leaves hl (frame_step_ident cfg ha) (selects_step cfg ha) ?_ hss hlinked
  have hlength : s.turns.length ≤ (step cfg s a).turns.length := by
    rcases turns_step cfg s a with hturns | hturns
    · have := congrArg List.length hturns
      simp only [List.length_map] at this
      omega
    · have := congrArg List.length hturns
      simp only [List.length_map, List.length_append] at this
      omega
  exact hlength

/-- A step that leaves calls and sessions as they are. -/
theorem Awaiting.plain (h : Awaiting id n q conv s) {a : Action} (ha : a.quiet = true)
    (hl : Leaves id s.store (step cfg s a).store) (hsends : (step cfg s a).sends = s.sends)
    (hsessions : (step cfg s a).sessions = s.sessions) : Awaiting id n q conv (step cfg s a) := by
  refine h.quiet ha hl ?_ ?_
  · rw [hsessions]
    exact .refl _
  · rw [hsends, hsessions]
    exact h.linked

theorem leaves_sendViaHttp (turn : ℕ) (s : System) : Leaves id s.store (sendViaHttp cfg turn s).store :=
  .of_view rfl (fun _ => rfl) (Or.inl rfl) rfl rfl

theorem leaves_sendViaLocalCc (turn : ℕ) (content : Content) (lab : Bool) (s : System) :
    Leaves id s.store (sendViaLocalCc cfg turn content lab s).store := by
  unfold sendViaLocalCc
  dsimp only
  split
  · split
    · exact .of_view rfl (fun _ => rfl) (Or.inl rfl) rfl rfl
    · exact .of_view rfl (fun _ => rfl) (Or.inl rfl) rfl rfl
  next t _ =>
    have hensure : Leaves id s.store (ensureConvId t (nextConv cfg s) { s.store with gotCcDone := false }).2 := by
      refine Leaves.trans ?_ (leaves_ensureConvId _ _ _)
      exact .of_view rfl (fun _ => rfl) (Or.inl rfl) rfl rfl
    refine hensure.trans ?_
    exact .of_view rfl (fun _ => rfl) (Or.inl rfl) rfl rfl

theorem sends_sendViaLocalCc (cfg : Config) (turn : ℕ) (content : Content) (lab : Bool) (s : System) :
    (sendViaLocalCc cfg turn content lab s).sessions = s.sessions ∧
      ((sendViaLocalCc cfg turn content lab s).sends = s.sends ∨
        ∃ c, (sendViaLocalCc cfg turn content lab s).sends = s.sends ++ [c] ∧ c.turn = turn ∧ c.pc = .starting) := by
  unfold sendViaLocalCc
  dsimp only
  split
  · split
    · exact ⟨rfl, Or.inl rfl⟩
    · exact ⟨rfl, Or.inl rfl⟩
  · exact ⟨rfl, Or.inr ⟨_, rfl, rfl, rfl⟩⟩

theorem sends_closeStream (j : Option ℕ) (s : System) :
    (closeStream j s).sends = s.sends ∧ (closeStream j s).sessions = s.sessions := by
  unfold closeStream
  split <;> exact ⟨rfl, rfl⟩

theorem sends_endIf (ends : Bool) (m : ℕ) (s : System) :
    (endIf ends m s).sends = s.sends ∧ (endIf ends m s).sessions = s.sessions := by
  unfold endIf
  split <;> exact ⟨rfl, rfl⟩

/-- A message is sent in another thread. -/
theorem awaiting_sendMessage (h : Awaiting id n q conv s) (content : Text) (route lab : Bool) (now : Text)
    (hother : s.store.view.streaming = true ∨ s.store.viewOwner ≠ id) :
    Awaiting id n q conv (sendMessage cfg content route lab now s) := by
  by_cases hs : s.store.view.streaming = true
  · rw [show sendMessage cfg content route lab now s = s from if_pos hs]
    exact h
  have hbegin : Leaves id s.store (beginTurn content now s.store) := leaves_beginTurn content now (hother.resolve_left hs)
  let s₁ := closeStream s.store.sse { s with
    turns := s.turns ++ [⟨s.store.activeId, false, false⟩], store := beginTurn content now s.store }
  have hstep : sendMessage cfg content route lab now s =
      if route then sendViaLocalCc cfg s.turns.length (tag s.store.activeId content) lab s₁ else sendViaHttp cfg s.turns.length s₁ :=
    if_neg hs
  have hstore : s₁.store = beginTurn content now s.store := frame_closeStream _ _
  have hsends := sends_closeStream s.store.sse { s with
    turns := s.turns ++ [⟨s.store.activeId, false, false⟩], store := beginTurn content now s.store }
  have hmade := sends_sendViaLocalCc cfg s.turns.length (tag s.store.activeId content) lab s₁
  refine h.quiet (a := .sendMessage content route lab now) rfl ?_ ?_ ?_
  · show Leaves id s.store (sendMessage cfg content route lab now s).store
    rw [hstep]
    split
    · refine Leaves.trans ?_ (leaves_sendViaLocalCc _ _ _ _)
      rw [hstore]
      exact hbegin
    · refine Leaves.trans ?_ (leaves_sendViaHttp _ _)
      rw [hstore]
      exact hbegin
  · show SessionsKept s.sessions (sendMessage cfg content route lab now s).sessions
    rw [hstep]
    split
    · rw [hmade.1, hsends.2]
      exact .refl _
    · show SessionsKept s.sessions s₁.sessions
      rw [hsends.2]
      exact .refl _
  · show Linked n conv (sendMessage cfg content route lab now s).sends (sendMessage cfg content route lab now s).sessions
    rw [hstep]
    split
    · rw [hmade.1, hsends.2]
      rcases hmade.2 with heq | ⟨c, heq, hturn, hpc⟩
      · rw [heq, hsends.1]
        exact h.linked
      · rw [heq, hsends.1]
        refine h.linked.append (fun hc => ?_) hpc
        have := h.turn
        omega
    · show Linked n conv s₁.sends s₁.sessions
      rw [hsends.1, hsends.2]
      exact h.linked

/-- The main process starts a session for a call or finds the one of its conversation. -/
theorem awaiting_startHandled (h : Awaiting id n q conv s) (k : ℕ) (refusal : Option Text) :
    Awaiting id n q conv (step cfg s (.startHandled k refusal)) := by
  have hl : Leaves id s.store (startHandled k refusal s).store := by
    rw [frame_startHandled]
    exact .refl id _
  have hlinks : SessionsKept s.sessions (startHandled k refusal s).sessions ∧
      Linked n conv (startHandled k refusal s).sends (startHandled k refusal s).sessions := by
    unfold startHandled
    cases hc : s.sends[k]? with
    | none => exact ⟨.refl _, h.linked⟩
    | some c =>
      have hmem : c ∈ s.sends := List.mem_of_getElem? hc
      have hrefused : ∀ error, Linked n conv (s.sends.set k { c with pc := .refused error }) s.sessions := fun error =>
        h.linked.set hc rfl rfl fun i hi => nomatch hi
      dsimp only
      split
      · exact ⟨.refl _, h.linked⟩
      · split
        · exact ⟨.refl _, hrefused _⟩
        · split
          next i hfound =>
            have hconv : ∃ x, s.sessions[i]? = some x ∧ x.conv = c.conv := by
              obtain ⟨hi, hp, -⟩ := List.findIdx?_eq_some_iff_getElem.mp hfound
              simp only [Bool.and_eq_true, decide_eq_true_eq] at hp
              exact ⟨_, List.getElem?_eq_getElem hi, hp.1⟩
            have hkeep : SessionsKept s.sessions
                (s.sessions.modify i fun x => { x with turn := c.turn, earlier := x.turn :: x.earlier }) :=
              sessionsKept_modify s.sessions i fun x => rfl
            refine ⟨hkeep, Linked.kept ?_ hkeep ?_⟩
            · refine h.linked.set hc rfl rfl ?_
              intro j hj
              cases hj
              exact hconv
            · intro x hx hturn
              obtain ⟨j, hj⟩ := List.mem_iff_getElem?.mp hx
              rw [List.getElem?_modify] at hj
              obtain ⟨y, hy, rfl⟩ := Option.map_eq_some_iff.mp hj
              split at hturn
              next hij =>
                obtain ⟨z, hz, hzconv⟩ := hconv
                rw [hij, hy] at hz
                rw [if_pos hij]
                exact ((congrArg Session.conv (Option.some.inj hz)).trans hzconv).trans (h.linked.sends c hmem hturn)
              next hij =>
                rw [if_neg hij]
                exact h.linked.sessions y (List.mem_of_getElem? hy) hturn
          · split
            · exact ⟨.refl _, hrefused _⟩
            · have hkeep := sessionsKept_append s.sessions ⟨c.conv, c.turn, [], true, false⟩
              refine ⟨hkeep, ?_⟩
              have hkept := h.linked.kept hkeep ?_
              · refine hkept.set hc rfl rfl ?_
                intro j hj
                cases hj
                exact ⟨⟨c.conv, c.turn, [], true, false⟩, by simp, rfl⟩
              · intro x hx hturn
                rcases List.mem_append.mp hx with hx | hx
                · exact h.linked.sessions x hx hturn
                · rw [List.mem_singleton.mp hx] at hturn ⊢
                  exact h.linked.sends c hmem hturn
  exact h.quiet (a := .startHandled k refusal) rfl hl hlinks.1 hlinks.2

theorem leaves_dispatchFailed (k : ℕ) (c : Send) (thrown : Bool) (error : Text) (s : System) :
    Leaves id s.store (dispatchFailed cfg k c thrown error s).store := by
  unfold dispatchFailed
  dsimp only
  split <;> exact .of_view rfl (fun _ => rfl) (Or.inl rfl) rfl rfl

theorem sends_dispatchFailed (cfg : Config) (k : ℕ) (c : Send) (thrown : Bool) (error : Text) (s : System) :
    (dispatchFailed cfg k c thrown error s).sends = s.sends.set k { c with pc := .finished } ∧
      (dispatchFailed cfg k c thrown error s).sessions = s.sessions := by
  unfold dispatchFailed
  dsimp only
  split <;> exact ⟨rfl, rfl⟩

/-- A call is over without a session of its own. -/
theorem Awaiting.finished (h : Awaiting id n q conv s) {a : Action} (ha : a.quiet = true) {k : ℕ} {c : Send}
    (hc : s.sends[k]? = some c) {thrown : Bool} {error : Text} (hstep : step cfg s a = dispatchFailed cfg k c thrown error s) :
    Awaiting id n q conv (step cfg s a) := by
  have hsends := sends_dispatchFailed cfg k c thrown error s
  refine h.quiet ha ?_ ?_ ?_
  · rw [hstep]
    exact leaves_dispatchFailed k c thrown error s
  · rw [hstep, hsends.2]
    exact .refl _
  · rw [hstep, hsends.1, hsends.2]
    exact h.linked.set hc rfl rfl fun i hi => nomatch hi

theorem awaiting_startThrows (h : Awaiting id n q conv s) (k : ℕ) (error : Text) :
    Awaiting id n q conv (startThrows cfg k error s) := by
  cases hc : s.sends[k]? with
  | none =>
    have hstep : startThrows cfg k error s = s := by simp [startThrows, hc]
    rw [hstep]
    exact h
  | some c =>
    by_cases hpc : c.pc = .sending ∨ c.pc = .finished
    · have hstep : startThrows cfg k error s = s := by
        rcases hpc with hpc | hpc <;> simp [startThrows, hc, hpc]
      rw [hstep]
      exact h
    · have hstep : step cfg s (.startThrows k error) = dispatchFailed cfg k c true error s := by
        rw [not_or] at hpc
        dsimp only [step]
        unfold startThrows
        rw [hc]
        dsimp only
        split
        next hp => exact absurd hp hpc.1
        next hp => exact absurd hp hpc.2
        · rfl
      exact h.finished (a := .startThrows k error) rfl hc hstep

theorem awaiting_sendAnswer (h : Awaiting id n q conv s) (k : ℕ) (thrown : Option Text) :
    Awaiting id n q conv (sendAnswer cfg k thrown s) := by
  cases hc : s.sends[k]? with
  | none =>
    have hstep : sendAnswer cfg k thrown s = s := by simp [sendAnswer, hc]
    rw [hstep]
    exact h
  | some c =>
    by_cases hpc : c.pc = .sending
    · cases thrown with
      | some error =>
        have hstep : step cfg s (.sendAnswer k (some error)) = dispatchFailed cfg k c true error s := by
          simp [step, sendAnswer, hc, hpc]
        exact h.finished (a := .sendAnswer k (some error)) rfl hc hstep
      | none =>
        have hstep : sendAnswer cfg k none s = { s with sends := s.sends.set k { c with pc := .finished } } := by
          simp [sendAnswer, hc, hpc]
        rw [hstep]
        exact h.leaves (.refl id _) (.refl _) rfl le_rfl (.refl _) (h.linked.set hc rfl rfl fun i hi => by cases hi)
    · have hstep : sendAnswer cfg k thrown s = s := by simp [sendAnswer, hc, hpc]
      rw [hstep]
      exact h

/-- `cc_start` is answered: the session comes to the view. -/
theorem awaiting_startAnswer (h : Awaiting id n q conv s) (k : ℕ)
    (hown : ∀ c ∈ s.sends[k]?, ∀ i, c.pc = .started i → c.conv = conv → s.store.viewOwner = id) :
    Awaiting id n q conv (startAnswer cfg k s) := by
  cases hc : s.sends[k]? with
  | none =>
    have hstep : startAnswer cfg k s = s := by simp [startAnswer, hc]
    rw [hstep]
    exact h
  | some c =>
    cases hpc : c.pc with
    | started i =>
      obtain ⟨x, hx, hxconv⟩ := h.linked.started c (List.mem_of_getElem? hc) i hpc
      have hstep : startAnswer cfg k s =
          { s with sends := s.sends.set k { c with pc := .sending }, store := sessionKnown i c s.store } := by
        simp [startAnswer, hc, hpc]
      have hknown : (sessionKnown i c s.store).view = { s.store.view with session := some i } := by
        unfold sessionKnown
        dsimp only
        split
        · rfl
        · split <;> rfl
      have hrest : (sessionKnown i c s.store).threads = s.store.threads ∧ (sessionKnown i c s.store).viewOwner = s.store.viewOwner ∧
          (sessionKnown i c s.store).activeId = s.store.activeId ∧ (sessionKnown i c s.store).counter = s.store.counter := by
        unfold sessionKnown
        dsimp only
        split
        · exact ⟨rfl, rfl, rfl, rfl⟩
        · split <;> exact ⟨rfl, rfl, rfl, rfl⟩
      obtain ⟨hthreads, howner, hactive, hcounter⟩ := hrest
      rw [hstep]
      refine ⟨(frame_sessionKnown (g := ident) i c s.store).wellFormed h.wellFormed, ?_, ?_,
        h.sole.frame (frame_sessionKnown (g := ident) i c s.store), ?_, ?_, ?_, ?_, ?_, h.turn,
        h.linked.set hc rfl rfl fun i hi => nomatch hi⟩
      · intro hi
        dsimp only
        rw [howner, hactive]
        exact h.idle hi
      · intro d hd hp
        dsimp only
        rw [hactive, hthreads]
        exact h.waiting d hd hp
      · intro m hm
        exact h.unborn m (hcounter.symm.trans_le hm)
      · intro ho
        dsimp only
        rw [hknown]
        exact h.shown (howner.symm.trans ho)
      · intro hstale
        dsimp only at hstale ⊢
        rw [hactive] at hstale
        rw [hthreads]
        exact h.kept hstale
      · intro ho j hj
        dsimp only at ho hj ⊢
        rw [howner] at ho
        rw [hknown] at hj
        cases hj
        refine ⟨x, hx, fun heq => ho ?_⟩
        exact hown c hc i hpc (hxconv.symm.trans heq)
      · dsimp only
        rw [hthreads]
        exact h.threads
    | refused error =>
      have hstep : step cfg s (.startAnswer k) = dispatchFailed cfg k c false error s := by
        simp [step, startAnswer, hc, hpc]
      exact h.finished (a := .startAnswer k) rfl hc hstep
    | _ =>
      have hstep : startAnswer cfg k s = s := by simp [startAnswer, hc, hpc]
      rw [hstep]
      exact h

/-! ### What sessions and streams bring -/

theorem awaiting_event (h : Awaiting id n q conv s) (i m : ℕ) (chunk : Chunk) (now : Text)
    (hspared : Spared id (turnThread m s) chunk (some i) s.store) :
    Awaiting id n q conv (step cfg s (.event i m chunk now)) := by
  have hsends := sends_endIf chunk.terminal m s
  refine h.plain rfl ?_ ?_ ?_
  all_goals
    dsimp only [step]
    unfold event
    split
    next => first | exact .refl id _ | rfl
    next =>
      split
      next => first | exact .refl id _ | rfl
      next =>
        first
        | exact leaves_ingestChunk _ _ _ now h.wellFormed.unique hspared
        | exact hsends.1
        | exact hsends.2

/-- A session that exits. -/
theorem awaiting_exit (h : Awaiting id n q conv s) (i : ℕ) (code : Text) (error : Option Text) (route : Bool) (now : Text)
    (hblank : s.store.view.session ≠ some i → ∀ t ∈ backgroundOf i s.store, t.id = id → trim t.bgReply = []) :
    Awaiting id n q conv (step cfg s (.exit i code error route now)) := by
  cases hx : s.sessions[i]? with
  | none =>
    have hstep : step cfg s (.exit i code error route now) = s := by simp [step, exit, hx]
    rw [hstep]
    exact h
  | some x =>
    by_cases hgone : x.alive = true ∨ x.exited = true
    · have hstep : step cfg s (.exit i code error route now) = s := by simp [step, exit, hx, hgone]
      rw [hstep]
      exact h
    have hfields : (step cfg s (.exit i code error route now)).sends = s.sends ∧
        (step cfg s (.exit i code error route now)).sessions = s.sessions.set i { x with exited := true } := by
      simp only [step, exit, hx, if_neg hgone]
      split
      · split <;> exact ⟨rfl, rfl⟩
      · split <;> exact ⟨rfl, rfl⟩
    have hkeep : SessionsKept s.sessions (s.sessions.set i { x with exited := true }) := sessionsKept_set hx rfl
    refine h.quiet rfl ?_ ?_ ?_
    · simp only [step, exit, hx, if_neg hgone]
      split
      · split
        · exact Leaves.trans (leaves_exitActive _ _) (Leaves.trans (leaves_beginRetry now _) (.of_view rfl (fun _ => rfl) (Or.inl rfl) rfl rfl))
        · exact leaves_exitActive _ _
      next hview =>
        cases hbg : backgroundOf i s.store with
        | none =>
          have hcrash : backgroundOf i (crashTurns (x.turn :: x.earlier)
              { s with sessions := s.sessions.set i { x with exited := true } }).store = none := hbg
          rw [hcrash]
          exact .refl id _
        | some t =>
          have hcrash : backgroundOf i (crashTurns (x.turn :: x.earlier)
              { s with sessions := s.sessions.set i { x with exited := true } }).store = some t := hbg
          rw [hcrash]
          exact leaves_finishBackground now h.wellFormed.unique (List.mem_of_find?_eq_some hbg) (hblank hview t hbg)
    · rw [hfields.2]
      exact hkeep
    · rw [hfields.1, hfields.2]
      refine h.linked.kept hkeep ?_
      intro y hy hturn
      rcases List.mem_or_eq_of_mem_set hy with hy | rfl
      · exact h.linked.sessions y hy hturn
      · exact h.linked.sessions x (List.mem_of_getElem? hx) hturn

/-- A line of an HTTP stream; a line can hand the turn over to the local agent. -/
theorem awaiting_line (h : Awaiting id n q conv s) (j : ℕ) (chunk : Chunk) (bridge : Bool) (now : Text)
    (hspared : ∀ x ∈ s.streams[j]?, if chunk.type = .modeSwitch ∧ chunk.toLocalCc = true then
        x.turn = n → s.store.view.conv.or chunk.conversationId = some conv
      else Spared id (turnThread x.turn s) chunk none s.store) :
    Awaiting id n q conv (step cfg s (.line j chunk bridge now)) := by
  cases hx : s.streams[j]? with
  | none =>
    have hstep : step cfg s (.line j chunk bridge now) = s := by simp [step, line, hx]
    rw [hstep]
    exact h
  | some x =>
    have hx' := hspared x hx
    by_cases hdrop : x.headed = false ∨ (x.closed = true ∧ x.switched = false) ∨ (chunk.conversationId.or x.conv) ≠ x.conv
    · have hstep : step cfg s (.line j chunk bridge now) = s := by
        simp only [step, line, hx, if_pos hdrop]
      rw [hstep]
      exact h
    by_cases hmode : chunk.type = .modeSwitch ∧ chunk.toLocalCc = true
    · rw [if_pos hmode] at hx'
      let s₁ := closeStream s.store.sse { s with streams := s.streams.set j { x with switched := true } }
      have hclose := sends_closeStream s.store.sse { s with streams := s.streams.set j { x with switched := true } }
      have hstep : step cfg s (.line j chunk bridge now) = startLocalCcTurn x.turn bridge
          { s₁ with store := { s₁.store with sse := none, view := { s₁.store.view with
            conv := s₁.store.view.conv.or chunk.conversationId } } } := by
        simp only [step, line, hx, if_neg hdrop, if_pos hmode, s₁]
      have hstore : s₁.store = s.store := frame_closeStream _ _
      refine h.quiet rfl ?_ ?_ ?_
      · have hmoved : Leaves id s.store { s₁.store with sse := none, view := { s₁.store.view with
            conv := s₁.store.view.conv.or chunk.conversationId } } := by
          rw [hstore]
          exact .of_view rfl (fun _ => rfl) (Or.inl rfl) rfl rfl
        rw [hstep]
        unfold startLocalCcTurn
        split
        · exact hmoved.trans (.of_view rfl (fun _ => rfl) (Or.inl rfl) rfl rfl)
        · exact hmoved.trans (leaves_failTurn _ _)
      · rw [hstep]
        unfold startLocalCcTurn
        split
        · rw [show s₁.sessions = s.sessions from hclose.2]
          exact .refl _
        · show SessionsKept s.sessions s₁.sessions
          rw [show s₁.sessions = s.sessions from hclose.2]
          exact .refl _
      · rw [hstep]
        unfold startLocalCcTurn
        split
        · show Linked n conv (s₁.sends ++ [_]) s₁.sessions
          rw [show s₁.sends = s.sends from hclose.1, show s₁.sessions = s.sessions from hclose.2]
          refine h.linked.append (fun hturn => ?_) rfl
          have hconv := hx' hturn
          show (s₁.store.view.conv.or chunk.conversationId).getD [] = conv
          rw [hstore, hconv]
          rfl
        · show Linked n conv s₁.sends s₁.sessions
          rw [show s₁.sends = s.sends from hclose.1, show s₁.sessions = s.sessions from hclose.2]
          exact h.linked
    · rw [if_neg hmode] at hx'
      have hsends := sends_endIf chunk.terminal x.turn s
      have hstep : step cfg s (.line j chunk bridge now) =
          { endIf chunk.terminal x.turn s with store := ingestChunk (turnThread x.turn s) chunk none now s.store } := by
        simp only [step, line, hx, if_neg hdrop, if_neg hmode]
      refine h.plain rfl ?_ ?_ ?_
      · rw [hstep]
        exact leaves_ingestChunk _ _ _ now h.wellFormed.unique hx'
      · rw [hstep]
        exact hsends.1
      · rw [hstep]
        exact hsends.2

theorem awaiting_httpError (h : Awaiting id n q conv s) (j : ℕ) (message : Text)
    (hreply : s.store.viewOwner = id → s.store.view.reply = []) :
    Awaiting id n q conv (step cfg s (.httpError j message)) := by
  refine h.plain rfl ?_ ?_ ?_
  all_goals
    dsimp only [step]
    unfold httpError
    split
    next => first | exact .refl id _ | rfl
    next =>
      split
      next => first | exact .refl id _ | rfl
      next => first | exact leaves_httpError message hreply | rfl

theorem awaiting_stopStreaming (h : Awaiting id n q conv s) (hreply : s.store.viewOwner = id → s.store.view.reply = []) :
    Awaiting id n q conv (step cfg s .stopStreaming) := by
  have hstore : (closeStream s.store.sse s).store = s.store := frame_closeStream _ _
  have hsends := sends_closeStream s.store.sse s
  refine h.plain rfl ?_ hsends.1 hsends.2
  show Leaves id s.store (Chat.stopStreaming (closeStream s.store.sse s).store)
  rw [hstore]
  exact leaves_stopStreaming hreply

theorem awaiting_headers (h : Awaiting id n q conv s) (j : ℕ) (named : Bool) :
    Awaiting id n q conv (step cfg s (.headers j named)) := by
  refine h.plain rfl ?_ ?_ ?_
  all_goals
    dsimp only [step]
    unfold headers
    split
    next => first | exact .refl id _ | rfl
    next =>
      split
      next => first | exact .refl id _ | rfl
      next =>
        first
        | rfl
        | (dsimp only
           split
           · exact .of_view rfl (fun _ => rfl) (Or.inl rfl) rfl rfl
           · exact .refl id _)

theorem awaiting_deleteThread (h : Awaiting id n q conv s) (id' : ThreadId) :
    Awaiting id n q conv (step cfg s (.deleteThread id')) := by
  refine h.plain rfl ?_ ?_ ?_
  all_goals
    dsimp only [step]
    unfold deleteThread
    split
    · first | exact .refl id _ | rfl
    · first | exact .refl id _ | rfl

theorem awaiting_die (h : Awaiting id n q conv s) (i : ℕ) : Awaiting id n q conv (step cfg s (.die i)) := by
  have hkeep : SessionsKept s.sessions (s.sessions.modify i fun x => { x with alive := false }) :=
    sessionsKept_modify s.sessions i fun x => rfl
  refine h.quiet rfl (.refl id _) hkeep (h.linked.kept hkeep ?_)
  intro y hy hturn
  have hmem : y ∈ s.sessions.modify i fun x => { x with alive := false } := hy
  obtain ⟨j, hj⟩ := List.mem_iff_getElem?.mp hmem
  rw [List.getElem?_modify] at hj
  obtain ⟨z, hz, rfl⟩ := Option.map_eq_some_iff.mp hj
  have hz' := h.linked.sessions z (List.mem_of_getElem? hz)
  split at hturn
  next hij =>
    rw [if_pos hij]
    exact hz' hturn
  next hij =>
    rw [if_neg hij]
    exact hz' hturn

end

end System

end AgentWorkflow.Desktop.Chat
