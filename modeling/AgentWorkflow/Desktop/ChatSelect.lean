import AgentWorkflow.Desktop.ChatOwners
import AgentWorkflow.Desktop.ChatDelete

/-!
# Selecting threads

`selectThread` makes its thread the active one before its await and sets the rest of the
view after it. While no other navigation starts in between, the view belongs to the
active thread again once the answer is in, and every thread keeps what was its own.
-/

namespace AgentWorkflow.Desktop.Chat
open AgentWorkflow.Lib AgentWorkflow.Lib.Calendar

/-- The thread of an object and whether it is marked as streaming. -/
def flag (t : Thread) : ThreadId × Bool := (t.id, t.isStreaming)

theorem flag_mem {ts ts' : List Thread} (h : ts'.map flag = ts.map flag) {t' : Thread} (ht : t' ∈ ts') :
    ∃ t ∈ ts, t.id = t'.id ∧ t.isStreaming = t'.isStreaming := by
  have hmem : flag t' ∈ ts'.map flag := List.mem_map_of_mem ht
  rw [h] at hmem
  obtain ⟨t, ht, heq⟩ := List.mem_map.mp hmem
  exact ⟨t, ht, congrArg Prod.fst heq, congrArg Prod.snd heq⟩

instance : Steady flag where
  eq := by
    intro t t' _ hi _ _ hs
    simp only [flag, hi, hs]

theorem frame_detach_leave (s : Store) : Frame flag (detachActiveStream s) (leave s) := by
  unfold leave
  exact (Frame.updateActive (by intro t; rfl) _).trans (frame_parkConversationState _)

/-- Up to its await `selectThread` sets the mark of the thread it leaves and no other. -/
theorem frame_detach_selectThread (id : ThreadId) (fresh : ConvId) (s : Store) :
    Frame flag { detachActiveStream s with activeId := id } (selectThread id fresh s).2 := by
  have hleave : Frame flag (detachActiveStream s) (leave s) := frame_detach_leave s
  unfold selectThread
  dsimp only
  split
  · exact (hleave.with_activeId id).with_view
  · next t _ =>
    have hensure : Frame flag { leave s with activeId := id } (ensureConvId t fresh { leave s with activeId := id }).2 :=
      frame_ensureConvId (Or.inr fun _ _ => rfl) fresh _
    exact ((hleave.with_activeId id).trans hensure).with_view

theorem flags_createThread (cfg : Config) (fresh : ConvId) (now : Text) (s : Store) :
    (createThread cfg fresh now s).threads.map flag =
      (threadId s.counter, false) :: (detachActiveStream s).threads.map flag := by
  have hdetach : Frame ident s (detachActiveStream s) := frame_detachActiveStream s
  have hsync : Frame flag (detachActiveStream s) (syncThreadMessages now (parkConversationState (detachActiveStream s))) :=
    (frame_parkConversationState _).trans (frame_syncThreadMessages now _)
  rw [← hsync.threads, ← hdetach.counter, ← hsync.counter]
  rfl

theorem flags_selectResolved (id : ThreadId) (target : Option ℕ) (conv : Option Conversation) (s : Store) :
    (selectResolved id target conv s).threads.map flag = s.threads.map flag := by
  have hframe : Frame flag { s with viewOwner := id } (selectResolved id target conv s) := frame_selectResolved ..
  exact hframe.threads

/-- After the detach every thread is marked that streams, the active one included. -/
theorem flags_detach {s : Store} {live : ThreadId → Bool} (hu : RefsUnique s)
    (hids : (s.threads.map Thread.id).Nodup) (hothers : ∀ t ∈ s.threads, t.id ≠ s.activeId → t.isStreaming = live t.id)
    (hview : s.view.streaming = live s.activeId)
    (hown : ∀ t ∈ s.threads, t.id = s.activeId → t.isStreaming = true → live t.id = true) :
    ∀ t ∈ (detachActiveStream s).threads, t.isStreaming = live t.id := by
  unfold detachActiveStream
  split
  · next hs =>
    apply forall_updateActive (P := fun t => t.isStreaming = live t.id) hu
    · intro t ht hne
      apply hothers t ht
      intro hid
      apply hne
      cases ha : activeThread s with
      | none => exact absurd hid (findThread_none ha t ht)
      | some u =>
        obtain ⟨hu', hid'⟩ := activeThread_some ha
        rw [List.inj_on_of_nodup_map hids hu' ht (hid'.trans hid.symm)]
    · intro t ha
      show true = live t.id
      rw [(activeThread_some ha).2, ← hview, hs]
  · next hs =>
    intro t ht
    by_cases hid : t.id = s.activeId
    · have hlive : live t.id = false := by
        rw [hid, ← hview]
        simpa using hs
      rw [hlive]
      by_contra hne
      have htrue := hown t ht hid (by simpa using hne)
      rw [hlive] at htrue
      cases htrue
    · exact hothers t ht hid

namespace System
variable (cfg : Config)

/-- The owners, with the conversation ids that the store has made. -/
def ownersOf (o : Owners) (s : System) : Owners :=
  { o with conv := fun c id => o.conv c id ∨ ∃ n, c = cfg.genConvId n ∧ s.convs[n]? = some id }

theorem ownersOf_le (o : Owners) {s s' : System} (ids : List ThreadId) (h : s'.convs = s.convs ++ ids) :
    (ownersOf cfg o s).Le (ownersOf cfg o s') := by
  refine ⟨?_, fun _ _ h => h, fun _ _ h => h⟩
  rintro c id (hc | ⟨n, rfl, hn⟩)
  · exact Or.inl hc
  · right
    refine ⟨n, rfl, ?_⟩
    rw [h]
    exact List.getElem?_append_left (List.getElem?_eq_some_iff.mp hn).1 ▸ hn

theorem ownersOf_next (o : Owners) {s s' : System} {id : ThreadId} (h : s'.convs = s.convs ++ [id]) :
    (ownersOf cfg o s').conv (nextConv cfg s) id :=
  Or.inr ⟨s.convs.length, rfl, by rw [h]; simp⟩

def Idle (s : System) : Prop := ∀ c ∈ s.selects, c.pending = false

/-- The view belongs to the active thread. -/
structure Shown (o : Owners) (live : ThreadId → Bool) (s : System) : Prop where
  shows : Shows (ownersOf cfg o s) s.store.activeId s.store.view
  streaming : s.store.view.streaming = live s.store.activeId
  own : ∀ t ∈ s.store.threads, t.id = s.store.activeId → t.isStreaming = true → live t.id = true

/-- Every thread holds its own things, and the view those of the active thread, apart
from what `selectThread` sets after its await. -/
structure Navigated (o : Owners) (live : ThreadId → Bool) (s : System) : Prop where
  wellFormed : WellFormed s.store
  ids : (s.store.threads.map Thread.id).Nodup
  numbered : ∀ t ∈ s.store.threads, ∀ n, t.id = threadId n → n < s.store.counter
  unborn : ∀ n, s.store.counter ≤ n → o.panel .empty (threadId n) ∧ live (threadId n) = false
  holds : HoldAll (ownersOf cfg o s) s.store
  names : Names (ownersOf cfg o s) s.store.activeId s.store.view
  others : ∀ t ∈ s.store.threads, t.id ≠ s.store.activeId → t.isStreaming = live t.id
  idle : Idle s → Shown cfg o live s
  waiting : ∀ c ∈ s.selects, c.pending = true →
    c.id = s.store.activeId ∧ (∃ t ∈ s.store.threads, c.target = some t.ref ∧ t.id = c.id) ∧
      ∀ t ∈ s.store.threads, t.isStreaming = live t.id

theorem Navigated.detached {o : Owners} {live : ThreadId → Bool} {s : System} (h : Navigated cfg o live s)
    (hi : Idle s) : ∀ t ∈ (detachActiveStream s.store).threads, t.isStreaming = live t.id :=
  flags_detach h.wellFormed.unique h.ids h.others (h.idle hi).streaming (h.idle hi).own

theorem navigated_createThread {o : Owners} {live : ThreadId → Bool} {s : System} (h : Navigated cfg o live s)
    (hi : Idle s) (now : Text) : Navigated cfg o live (createThread cfg now s) := by
  have hframe := frame_createThread (g := ident) cfg (nextConv cfg s) now s.store
  have hle : (ownersOf cfg o s).Le (ownersOf cfg o (createThread cfg now s)) := ownersOf_le cfg o [_] rfl
  have hconv : (ownersOf cfg o (createThread cfg now s)).conv (nextConv cfg s) (threadId s.store.counter) :=
    ownersOf_next cfg o rfl
  have hunborn := h.unborn s.store.counter le_rfl
  have hflags : ∀ t ∈ (createThread cfg now s).store.threads, t.isStreaming = live t.id := by
    intro t ht
    have hmem : flag t ∈ (createThread cfg now s).store.threads.map flag := List.mem_map_of_mem ht
    have heq : (createThread cfg now s).store.threads.map flag =
        (threadId s.store.counter, false) :: (detachActiveStream s.store).threads.map flag :=
      flags_createThread ..
    rw [heq] at hmem
    cases List.mem_cons.mp hmem with
    | inl hnew =>
      rw [show t.isStreaming = false from congrArg Prod.snd hnew,
        show t.id = threadId s.store.counter from congrArg Prod.fst hnew, hunborn.2]
    | inr hold =>
      obtain ⟨u, hu, hflag⟩ := List.mem_map.mp hold
      have hlive := h.detached cfg hi u hu
      rwa [show u.isStreaming = t.isStreaming from congrArg Prod.snd hflag,
        show u.id = t.id from congrArg Prod.fst hflag] at hlive
  have hids : (createThread cfg now s).store.threads.map Thread.id = threadId s.store.counter :: s.store.threads.map Thread.id :=
    hframe.ids
  have hactive : (createThread cfg now s).store.activeId = threadId s.store.counter := hframe.activeId
  have hcounter : (createThread cfg now s).store.counter = s.store.counter + 1 := hframe.counter
  constructor
  · exact wellFormed_createThread h.wellFormed cfg _ now
  · rw [hids]
    refine List.nodup_cons.mpr ⟨?_, h.ids⟩
    intro hmem
    obtain ⟨t, ht, hid⟩ := List.mem_map.mp hmem
    exact absurd (h.numbered t ht _ hid) (lt_irrefl _)
  · intro t ht n hn
    rw [hcounter]
    have hmem : t.id ∈ (createThread cfg now s).store.threads.map Thread.id := List.mem_map_of_mem ht
    rw [hids] at hmem
    cases List.mem_cons.mp hmem with
    | inl hnew =>
      rw [threadId_injective (hn.symm.trans hnew)]
      omega
    | inr hold =>
      obtain ⟨u, hu, hid⟩ := List.mem_map.mp hold
      have hlt := h.numbered u hu n (hid.trans hn)
      omega
  · intro n hn
    rw [hcounter] at hn
    exact h.unborn n (by omega)
  · exact (h.holds.mono hle).createThread h.wellFormed.unique ((h.idle hi).shows.mono hle) (h.names.mono hle) cfg now
      hconv hunborn.1
  · rw [hactive]
    exact names_createThread hconv hunborn.1
  · intro t ht _
    exact hflags t ht
  · intro _
    refine ⟨?_, ?_, ?_⟩
    · rw [hactive]
      exact shows_createThread _ cfg _ now s.store
    · rw [hactive, hunborn.2]
      rfl
    · intro t ht _ hs
      rw [← hflags t ht, hs]
  · intro c hc hp
    have hfalse := hi c hc
    rw [hp] at hfalse
    cases hfalse

theorem navigated_selectThread {o : Owners} {live : ThreadId → Bool} {s : System} (h : Navigated cfg o live s)
    (hi : Idle s) {id : ThreadId} (hne : s.store.activeId ≠ id) (hid : ∃ t ∈ s.store.threads, t.id = id) :
    Navigated cfg o live (selectThread cfg id false s) := by
  have hstore : (selectThread cfg id false s).store = (Chat.selectThread id (nextConv cfg s) s.store).2 := by
    simp only [selectThread, if_neg hne]
  have hselects : (selectThread cfg id false s).selects =
      s.selects ++ [⟨id, (Chat.selectThread id (nextConv cfg s) s.store).1, false, true⟩] := by
    simp only [selectThread, if_neg hne]
  have hconvs : (selectThread cfg id false s).convs = s.convs ++ [id] := by
    simp only [selectThread, if_neg hne]
  have hframe : Frame ident { s.store with activeId := id } (Chat.selectThread id (nextConv cfg s) s.store).2 :=
    frame_selectThread (fun t _ _ => settled_ident t) _
  have hle := ownersOf_le cfg o [id] hconvs
  have hconv := ownersOf_next cfg o hconvs
  have hshows := (h.idle hi).shows.mono hle
  have hflags : ∀ t ∈ (Chat.selectThread id (nextConv cfg s) s.store).2.threads, t.isStreaming = live t.id := by
    intro t ht
    obtain ⟨u, hu, hident, hflag⟩ := flag_mem (frame_detach_selectThread id (nextConv cfg s) s.store).threads ht
    rw [← hident, ← hflag]
    exact h.detached cfg hi u hu
  rw [← hstore] at hframe hflags
  constructor
  · exact hframe.wellFormed ⟨h.wellFormed.unique, h.wellFormed.below⟩
  · rw [hframe.ids]
    exact h.ids
  · intro t ht n hn
    obtain ⟨u, hu, hident⟩ := hframe.mem ht
    rw [hframe.counter]
    exact h.numbered u hu n ((congrArg Ident.id hident).trans hn)
  · intro n hn
    rw [hframe.counter] at hn
    exact h.unborn n hn
  · rw [hstore]
    exact (h.holds.mono hle).selectThread h.wellFormed.unique hshows (h.names.mono hle) hid hconv
  · rw [hframe.activeId, hstore]
    exact names_selectThread (h.holds.mono hle) h.wellFormed.unique hshows (h.names.mono hle) hid hconv
  · intro t ht _
    exact hflags t ht
  · intro hidle
    unfold Idle at hidle
    rw [hselects] at hidle
    exact absurd (hidle _ (List.mem_append_right _ (List.mem_singleton_self _))) (by simp)
  · intro c hc hp
    rw [hselects] at hc
    cases List.mem_append.mp hc with
    | inl hold =>
      rw [hi c hold] at hp
      cases hp
    | inr hnew =>
      rw [List.mem_singleton.mp hnew]
      refine ⟨hframe.activeId.symm, ?_, hflags⟩
      obtain ⟨t, ht, htid, hsel⟩ := selectThread_found (nextConv cfg s) hid
      have hmem : ident t ∈ (selectThread cfg id false s).store.threads.map ident := by
        rw [hframe.threads, ← (frame_leave s.store).threads]
        exact List.mem_map_of_mem ht
      obtain ⟨u, hu, hident⟩ := List.mem_map.mp hmem
      refine ⟨u, hu, ?_, (congrArg Ident.id hident).trans htid⟩
      rw [hsel]
      exact congrArg some (congrArg Ident.ref hident).symm

theorem Navigated.persist {o : Owners} {live : ThreadId → Bool} {s : System} (h : Navigated cfg o live s) :
    Navigated cfg o live { s with store := Chat.persist s.store } :=
  { wellFormed := (Frame.persist s.store).wellFormed h.wellFormed
    ids := h.ids
    numbered := h.numbered
    unborn := h.unborn
    holds := h.holds
    names := h.names
    others := h.others
    idle := fun hi => ⟨(h.idle hi).shows, (h.idle hi).streaming, (h.idle hi).own⟩
    waiting := h.waiting }

/-- What an answer, late or not, does while it is awaited for the active thread. -/
theorem navigated_conversation {o : Owners} {live : ThreadId → Bool} {s : System} (h : Navigated cfg o live s)
    (k : ℕ) (answer : Option Conversation) : Navigated cfg o live (conversation k answer s) := by
  unfold conversation
  cases hk : s.selects[k]? with
  | none => exact h
  | some c =>
    dsimp only
    split
    · exact h
    · next hp =>
      obtain ⟨hid, ⟨t, ht, htarget, htid⟩, hall⟩ :=
        h.waiting c (List.mem_of_getElem? hk) (by simpa using hp)
      have hlookup := h.wellFormed.unique.lookup ht
      have htactive : t.id = s.store.activeId := htid.trans hid
      have hview := @view_selectResolved c.id t.ref t s.store hlookup answer
      rw [← htarget] at hview
      have hframe := frame_selectResolved (g := ident) c.id c.target answer s.store
      have hholds : HoldAll (ownersOf cfg o s) (selectResolved c.id c.target answer s.store) := by
        apply h.holds.selectResolved
        intro u hu href
        rw [htarget] at href
        rw [← h.wellFormed.unique.eq_threads ht hu (Option.some.inj href)]
        exact htid
      have hnames : Names (ownersOf cfg o s) s.store.activeId (selectResolved c.id c.target answer s.store).view := by
        rw [hview]
        exact names_restore (h.holds t ht) htactive ⟨h.names.conv, h.names.panel⟩
      have hshows : Shows (ownersOf cfg o s) s.store.activeId (selectResolved c.id c.target answer s.store).view := by
        rw [hview]
        apply shows_restore (h.holds t ht) htactive
        rw [← htactive]
        cases cloudWins (some t) answer with
        | none => exact (h.holds t ht).messages
        | some ms =>
          rw [← htid]
          exact allOwnedBy_tagged _ _
      have hstreaming : (selectResolved c.id c.target answer s.store).view.streaming = live s.store.activeId := by
        rw [hview, ← htactive, ← hall t ht]
        unfold restore
        dsimp only
        split
        · next hs => exact hs.symm
        · next hs => exact (Bool.eq_false_iff.mpr hs).symm
      have hflags : ∀ u ∈ (selectResolved c.id c.target answer s.store).threads, u.isStreaming = live u.id := by
        intro u hu
        obtain ⟨v, hv, hident, hflag⟩ := flag_mem (flags_selectResolved c.id c.target answer s.store) hu
        rw [← hident, ← hflag]
        exact hall v hv
      have hresult : Navigated cfg o live
          { s with
            selects := s.selects.set k { c with pending := false }
            store := selectResolved c.id c.target answer s.store } := by
        constructor
        · exact hframe.wellFormed ⟨h.wellFormed.unique, h.wellFormed.below⟩
        · rw [hframe.ids]
          exact h.ids
        · intro u hu n hn
          obtain ⟨v, hv, hident⟩ := hframe.mem hu
          rw [hframe.counter]
          exact h.numbered v hv n ((congrArg Ident.id hident).trans hn)
        · intro n hn
          rw [hframe.counter] at hn
          exact h.unborn n hn
        · exact hholds
        · rw [hframe.activeId]
          exact hnames
        · intro u hu _
          exact hflags u hu
        · intro _
          refine ⟨?_, ?_, ?_⟩
          · rw [hframe.activeId]
            exact hshows
          · rw [hframe.activeId]
            exact hstreaming
          · intro u hu _ hs
            rw [← hflags u hu, hs]
        · intro d hd hpd
          have hold : d ∈ s.selects := by
            cases List.mem_or_eq_of_mem_set hd with
            | inl hmem => exact hmem
            | inr heq =>
              rw [heq] at hpd
              cases hpd
          obtain ⟨hdid, ⟨u, hu, hdtarget, hudid⟩, -⟩ := h.waiting d hold hpd
          refine ⟨hdid.trans hframe.activeId.symm, ?_, hflags⟩
          have hmem : ident u ∈ (selectResolved c.id c.target answer s.store).threads.map ident := by
            rw [hframe.threads]
            exact List.mem_map_of_mem hu
          obtain ⟨v, hv, hident⟩ := List.mem_map.mp hmem
          refine ⟨v, hv, ?_, (congrArg Ident.id hident).trans hudid⟩
          rw [hdtarget]
          exact congrArg some (congrArg Ident.ref hident).symm
      split
      · exact hresult.persist cfg
      · exact hresult

/-! ### Runs -/

end System

/-- The operations between which the last selected thread has to win. -/
def Action.navigates : Action → Bool
  | .createThread _ | .selectThread _ | .conversation _ _ => true
  | _ => false

namespace System
variable (cfg : Config)

/-- No navigation away from the active thread starts while `selectThread` waits, and a
thread is selected from the list. -/
def Alone (s : System) : Action → Prop
  | .createThread _ => Idle s
  | .selectThread id => s.store.activeId = id ∨ (Idle s ∧ ∃ t ∈ s.store.threads, t.id = id)
  | _ => True

/-- The thread selected or created last, and the number of the next one. -/
def lastThread (p : ThreadId × ℕ) : Action → ThreadId × ℕ
  | .createThread _ => (threadId p.2, p.2 + 1)
  | .selectThread id => (id, p.2)
  | _ => p

theorem navigated_step {o : Owners} {live : ThreadId → Bool} {s : System} {a : Action} (h : Navigated cfg o live s)
    (ha : a.navigates = true) (halone : Alone s a) : Navigated cfg o live (step cfg s a) := by
  cases a with
  | createThread now => exact navigated_createThread cfg h halone now
  | selectThread id =>
    by_cases heq : s.store.activeId = id
    · simp only [step, selectThread, if_pos heq]
      exact h
    · obtain ⟨hi, hid⟩ := halone.resolve_left heq
      exact navigated_selectThread cfg h hi heq hid
  | conversation k answer => exact navigated_conversation cfg h k answer
  | _ => cases ha

theorem lastThread_step (s : System) {a : Action} (ha : a.navigates = true) :
    ((step cfg s a).store.activeId, (step cfg s a).store.counter) = lastThread (s.store.activeId, s.store.counter) a := by
  cases a with
  | createThread now =>
    have hframe := frame_createThread (g := ident) cfg (nextConv cfg s) now s.store
    exact Prod.ext hframe.activeId hframe.counter
  | selectThread id =>
    by_cases heq : s.store.activeId = id
    · simp only [step, selectThread, lastThread, ← heq]
      rfl
    · have hframe : Frame ident { s.store with activeId := id } (Chat.selectThread id (nextConv cfg s) s.store).2 :=
    frame_selectThread (fun t _ _ => settled_ident t) _
      simp only [step, selectThread, if_neg heq]
      exact Prod.ext hframe.activeId hframe.counter
  | conversation k answer =>
    unfold step conversation
    dsimp only
    split
    · rfl
    · split
      · rfl
      · next c _ _ =>
        have hframe := frame_selectResolved (g := ident) c.id c.target answer s.store
        dsimp only
        split
        · exact Prod.ext hframe.activeId hframe.counter
        · exact Prod.ext hframe.activeId hframe.counter
  | _ => cases ha

theorem lastThread_run (s : System) (as : List Action) (has : ∀ a ∈ as, a.navigates = true) :
    (((machine cfg).run s as).store.activeId, ((machine cfg).run s as).store.counter) =
      as.foldl lastThread (s.store.activeId, s.store.counter) := by
  induction as generalizing s with
  | nil => rfl
  | cons a as ih =>
    rw [Machine.run_cons, ih _ fun b hb => has b (List.mem_cons_of_mem _ hb), List.foldl_cons,
      ← lastThread_step cfg s (has a List.mem_cons_self)]
    rfl

/-- Every thread keeps its own things, and when no `selectThread` waits any more the view
is that of the thread selected or created last. -/
theorem last_selected_wins (o : Owners) (live : ThreadId → Bool) (s : System) (h : Navigated cfg o live s)
    (as : List Action) (has : ∀ a ∈ as, a.navigates = true) (halone : (machine cfg).Along Alone s as) :
    let s' := (machine cfg).run s as
    HoldAll (ownersOf cfg o s') s'.store ∧
      s'.store.activeId = (as.foldl lastThread (s.store.activeId, s.store.counter)).1 ∧
      (Idle s' → Names (ownersOf cfg o s') s'.store.activeId s'.store.view ∧ Shown cfg o live s') := by
  have hrun : Navigated cfg o live ((machine cfg).run s as) := by
    induction as generalizing s with
    | nil => exact h
    | cons a as ih =>
      apply ih _ (navigated_step cfg h (has a List.mem_cons_self) halone.1)
      · intro b hb
        exact has b (List.mem_cons_of_mem _ hb)
      · exact halone.2
  refine ⟨hrun.holds, ?_, fun hi => ⟨hrun.names, hrun.idle hi⟩⟩
  exact congrArg Prod.fst (lastThread_run cfg s as has)

theorem navigated_init (o : Owners) (hp : ∀ n, o.panel .empty (threadId n)) (customer now : Text) :
    Navigated cfg o (fun _ => false) (init cfg customer ∅ now) := by
  have hconv : (ownersOf cfg o (init cfg customer ∅ now)).conv (cfg.genConvId 0) (threadId 1) := Or.inr ⟨0, rfl, rfl⟩
  have hmessages : AllOwnedBy (threadId 1) [welcomeMessage cfg (threadId 1)] := by
    intro m hm
    rw [List.mem_singleton.mp hm]
    exact ownedBy_tag _ _
  have hthreads : (init cfg customer ∅ now).store.threads =
      [newThread cfg 0 (threadId 1) customer (cfg.genConvId 0) now] := rfl
  constructor
  · exact wellFormed_init cfg customer ∅ now
  · rw [hthreads]
    exact List.nodup_singleton _
  · intro t ht n hn
    rw [hthreads, List.mem_singleton] at ht
    rw [ht] at hn
    rw [← threadId_injective hn]
    exact Nat.lt_succ_self 1
  · intro n _
    exact ⟨hp n, rfl⟩
  · intro t ht
    rw [hthreads, List.mem_singleton] at ht
    rw [ht]
    refine ⟨hmessages, ownedBy_nil _, ?_, by simp [newThread], by simp [newThread], hp 1⟩
    intro c hc
    rw [← Option.some.inj hc]
    exact hconv
  · refine ⟨?_, hp 1⟩
    intro c hc
    cases hc
  · intro t ht _
    rw [hthreads, List.mem_singleton] at ht
    rw [ht]
    rfl
  · intro _
    refine ⟨⟨hmessages, ownedBy_nil _, ?_⟩, rfl, ?_⟩
    · intro i hi
      cases hi
    · intro t ht _ hs
      rw [hthreads, List.mem_singleton] at ht
      rw [ht] at hs
      cases hs
  · intro c hc
    cases hc

/-- A new thread, then back to the first one, whose request fails. -/
theorem last_selected_wins_back :
    let s' := (machine .plain).run (init .plain [] ∅ [])
      [.createThread [], .selectThread (threadId 1), .conversation 0 none]
    s'.store.activeId = threadId 1 ∧ Shows (ownersOf .plain ⟨fun _ _ => False, fun _ _ => False, fun p _ => p = .empty⟩ s')
      (threadId 1) s'.store.view := by
  intro s'
  have halone : (machine .plain).Along Alone (init .plain [] ∅ [])
      [.createThread [], .selectThread (threadId 1), .conversation 0 none] := by
    refine ⟨?_, Or.inr ⟨?_, newThread .plain 0 (threadId 1) [] (Config.plain.genConvId 0) [], ?_, rfl⟩, trivial, trivial⟩
    · intro c hc
      cases hc
    · intro c hc
      cases hc
    · decide +kernel
  have hrun := last_selected_wins .plain ⟨fun _ _ => False, fun _ _ => False, fun p _ => p = .empty⟩ (fun _ => false)
    (init .plain [] ∅ []) (navigated_init .plain _ (fun _ => rfl) [] [])
    [.createThread [], .selectThread (threadId 1), .conversation 0 none] (by decide) halone
  obtain ⟨-, hactive, hshown⟩ := hrun
  have hid : s'.store.activeId = threadId 1 := hactive
  refine ⟨hid, ?_⟩
  rw [← hid]
  refine (hshown ?_).2.shows
  unfold Idle
  decide +kernel

/-- The second and the third thread are selected one after the other, and the answer for
the third comes first: the view is not that of the active third thread, and the second
has lost its messages to the first. -/
theorem earlier_selection_wins :
    let hi : Message := ⟨.user, tag (threadId 1) "hi".toList⟩
    let s := (machine .plain).run (init .plain [] ∅ [])
      [.createThread [], .createThread [], .selectThread (threadId 1),
        .conversation 0 (some ⟨[(.user, "hi".toList)], some "2".toList, none⟩),
        .selectThread (threadId 2), .selectThread (threadId 3), .conversation 2 none, .conversation 1 none]
    s.selects.map SelectCall.pending = [false, false, false] ∧ s.store.activeId = threadId 3 ∧
      s.store.view.messages = [hi] ∧ (findThread (threadId 2) s.store).map Thread.messages = some [hi] := by
  decide +kernel

end System

end AgentWorkflow.Desktop.Chat
