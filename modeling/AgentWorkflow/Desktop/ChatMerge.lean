import AgentWorkflow.Desktop.ChatSteps
import AgentWorkflow.Desktop.ChatOwners

/-!
# The merge with the remote copy of a thread

`selectThread` compares the two timestamps twice, for the messages and for the resume
id. Taking the remote messages over also takes their timestamp over, so the second
comparison sees two equal ones.
-/

namespace AgentWorkflow.Desktop.Chat
open AgentWorkflow.Lib AgentWorkflow.Lib.Calendar

/-! ### The thread that is selected -/

theorem findThread_updateActive {f : Thread → Thread} (hf : ∀ t, (f t).id = t.id) {s : Store} {id : ThreadId}
    (hid : id ≠ s.activeId) (hu : RefsUnique s) : findThread id (updateActive f s) = findThread id s := by
  unfold updateActive
  cases ha : activeThread s with
  | none => rfl
  | some a =>
    obtain ⟨hamem, haid⟩ := activeThread_some ha
    have hsame : ((fun t : Thread => decide (t.id = id)) ∘ fun t => if t.ref = a.ref then f t else t) =
        fun t => decide (t.id = id) := by
      funext t
      simp only [Function.comp_apply]
      split
      · rw [hf]
      · rfl
    dsimp only [findThread, update]
    rw [List.find?_map, hsame]
    cases hfound : s.threads.find? fun t => decide (t.id = id) with
    | none => rfl
    | some t =>
      have htid : t.id = id := by simpa using List.find?_some hfound
      have hne : t.ref ≠ a.ref := by
        intro href
        have heq := hu.eq_threads (List.mem_of_find?_eq_some hfound) hamem href
        exact hid (htid.symm.trans ((congrArg Thread.id heq).trans haid))
      rw [Option.map_some, if_neg hne]

theorem findThread_leave {s : Store} {id : ThreadId} (hid : id ≠ s.activeId) (hu : RefsUnique s) :
    findThread id (leave s) = findThread id s := by
  have hdetach : findThread id (detachActiveStream s) = findThread id s := by
    unfold detachActiveStream
    split
    · refine findThread_updateActive ?_ hid hu
      intro t
      rfl
    · rfl
  have hd : Frame ident s (detachActiveStream s) := frame_detachActiveStream s
  have hid' : id ≠ (detachActiveStream s).activeId := by
    rw [hd.activeId]
    exact hid
  have hm : Frame ident (detachActiveStream s)
      (updateActive (fun t => { t with messages := (detachActiveStream s).view.messages }) (detachActiveStream s)) := by
    apply Frame.updateActive
    intro t
    rfl
  unfold leave parkConversationState
  refine (findThread_updateActive ?_ ?_ ?_).trans ((findThread_updateActive ?_ hid' (hd.refsUnique hu)).trans hdetach)
  · intro t
    rfl
  · rw [hm.activeId]
    exact hid'
  · exact hm.refsUnique (hd.refsUnique hu)
  · intro t
    rfl

theorem lookup_update (ref : ℕ) {f : Thread → Thread} (hf : ∀ t, (f t).ref = t.ref) (s : Store) :
    lookup ref (update ref f s) = (lookup ref s).map f := by
  have hsame : ((fun t : Thread => decide (t.ref = ref)) ∘ fun t => if t.ref = ref then f t else t) =
      fun t => decide (t.ref = ref) := by
    funext t
    simp only [Function.comp_apply]
    split
    · rw [hf]
    · rfl
  unfold lookup update
  rw [← List.map_append, List.find?_map, hsame]
  cases hfound : (s.threads ++ s.detached).find? fun t => decide (t.ref = ref) with
  | none => rfl
  | some t =>
    have href : t.ref = ref := by simpa using List.find?_some hfound
    rw [Option.map_some, Option.map_some, if_pos href]

/-- The content of a thread that the merge reads. -/
structure SameCopy (t t' : Thread) : Prop where
  messages : t'.messages = t.messages
  updatedAt : t'.updatedAt = t.updatedAt
  ccSessionId : t'.ccSessionId = t.ccSessionId

/-- The selected object waits for the answer with the copy it had. -/
theorem selectThread_waits {s : Store} {id : ThreadId} {t : Thread} (hid : id ≠ s.activeId) (hu : RefsUnique s)
    (hfound : findThread id s = some t) (fresh : ConvId) :
    (selectThread id fresh s).1 = some t.ref ∧
      ∃ t', lookup t.ref (selectThread id fresh s).2 = some t' ∧ t'.ref = t.ref ∧ SameCopy t t' := by
  have hleave : findThread id { leave s with activeId := id } = some t := (findThread_leave hid hu).trans hfound
  have hmem := (findThread_some hleave).1
  have hunique : RefsUnique { leave s with activeId := id } := (frame_leave (g := ident) s).refsUnique hu
  have hlookup := hunique.lookup hmem
  rw [selectThread_eq, hleave]
  refine ⟨rfl, ?_⟩
  dsimp only
  unfold ensureConvId
  cases t.conversationId with
  | some c => exact ⟨t, hlookup, rfl, rfl, rfl, rfl⟩
  | none =>
    refine ⟨{ t with conversationId := some fresh }, ?_, rfl, rfl, rfl, rfl⟩
    refine (lookup_update t.ref ?_ { leave s with activeId := id }).trans ?_
    · intro u
      rfl
    · rw [hlookup]
      rfl

/-! ### The two comparisons -/

theorem textLt_irrefl (a : Text) : textLt a a = false := by
  rw [textLt, decide_eq_false_iff_not]
  exact lt_irrefl _

theorem textLt_nil {u : Text} (hu : u ≠ []) : textLt [] u = true := by
  cases u with
  | nil => exact absurd rfl hu
  | cons c u =>
    have hne : utf16 c ≠ [] := by
      unfold utf16
      split <;> simp
    cases hc : utf16 c with
    | nil => exact absurd hc hne
    | cons n ns => simp [textLt, hc]

/-- The thread with the remote messages and their time, or as it is. -/
def takenOver (id : ThreadId) (t : Thread) (conv : Conversation) : Thread :=
  match cloudWins (some t) (some conv) with
  | some ms => { t with messages := tagged id ms, updatedAt := conv.updatedAt.getD t.updatedAt }
  | none => t

/-- The object after the answer: the messages of the first comparison, the resume id of
the second. -/
theorem selectResolved_thread {s : Store} {id : ThreadId} {t : Thread} {ref : ℕ} (hlookup : lookup ref s = some t)
    (href : t.ref = ref) (conv : Conversation) :
    ∃ t', lookup ref (selectResolved id (some ref) (some conv) s) = some t' ∧
      t'.messages = (takenOver id t conv).messages ∧ t'.ccSessionId = mergedSession (takenOver id t conv) (some conv) := by
  have hfinish : ∀ (u : Thread) (before : Option Thread) (ms : List Message) (r : Store), lookup ref r = some u → u.ref = ref →
      ∃ t', lookup ref (selectResolved.finish id (some conv) before (some u) ms r) = some t' ∧
        t'.messages = u.messages ∧ t'.ccSessionId = mergedSession u (some conv) := by
    intro u before ms r hr huref
    have hunpark : ∀ v : Thread, (unpark v).ref = v.ref ∧ (unpark v).messages = v.messages ∧
        (unpark v).ccSessionId = v.ccSessionId := by
      intro v
      unfold unpark
      split <;> exact ⟨rfl, rfl, rfl⟩
    unfold selectResolved.finish
    dsimp only
    rw [huref]
    split
    next hsame =>
      have hup := lookup_update ref (fun v => (hunpark v).1) r
      rw [hr] at hup
      exact ⟨_, hup, (hunpark u).2.1, (hunpark u).2.2.trans hsame.symm⟩
    next hdiffers =>
      have hset : lookup ref (update ref (fun t => { t with ccSessionId := mergedSession u (some conv) }) r) =
          (lookup ref r).map fun t => { t with ccSessionId := mergedSession u (some conv) } := by
        refine lookup_update ref ?_ r
        intro t
        rfl
      rw [hr] at hset
      have hup := lookup_update ref (fun v => (hunpark v).1)
        (persist (update ref (fun t => { t with ccSessionId := mergedSession u (some conv) }) r))
      have hpersist : ∀ v : Store, lookup ref (persist v) = lookup ref v := fun v => rfl
      rw [hpersist, hset] at hup
      exact ⟨_, hup, (hunpark _).2.1, (hunpark _).2.2⟩
  unfold selectResolved takenOver
  simp only [Option.bind_some, hlookup]
  cases hwins : cloudWins (some t) (some conv) with
  | none => exact hfinish t _ _ s hlookup href
  | some ms =>
    have hup : lookup ref (update ref
          (fun t => { t with messages := tagged id ms, updatedAt := conv.updatedAt.getD t.updatedAt }) s) =
        (lookup ref s).map fun t => { t with messages := tagged id ms, updatedAt := conv.updatedAt.getD t.updatedAt } := by
      refine lookup_update ref ?_ s
      intro t
      rfl
    rw [hlookup] at hup
    exact hfinish { t with messages := tagged id ms, updatedAt := conv.updatedAt.getD t.updatedAt } _ _ _ hup href

theorem cloudWins_of_messages {t : Thread} (ht : t.messages ≠ []) {ms : List (Role × Text)} (hms : ms ≠ []) {u : Text}
    (hu : u ≠ []) (session : Option Text) :
    cloudWins (some t) (some ⟨ms, some u, session⟩) = if textLt t.updatedAt u = true then some ms else none := by
  have hnil : t.updatedAt = [] → textLt t.updatedAt u = true := fun h => h ▸ textLt_nil hu
  simp only [cloudWins, hms, ht, if_false]
  by_cases hlt : textLt t.updatedAt u = true
  · rw [if_pos (Or.inr hlt), if_pos hlt]
  · rw [if_neg (fun h => hlt (h.elim hnil id)), if_neg hlt]

/-- The second comparison never takes a resume id over one the thread has. -/
theorem mergedSession_takenOver {id : ThreadId} {t : Thread} (ht : t.messages ≠ []) {ms : List (Role × Text)}
    (hms : ms ≠ []) {u : Text} (hu : u ≠ []) (remote : Text) :
    mergedSession (takenOver id t ⟨ms, some u, some remote⟩) (some ⟨ms, some u, some remote⟩) =
      if t.ccSessionId = none then some remote else t.ccSessionId := by
  have hwins := cloudWins_of_messages ht hms hu (some remote)
  unfold takenOver
  rw [hwins]
  by_cases hlt : textLt t.updatedAt u = true
  · simp [hlt, mergedSession, hms, hu, textLt_irrefl]
  · have hne : t.updatedAt ≠ [] := fun h => hlt (h ▸ textLt_nil hu)
    simp [hlt, mergedSession, hms, hne]

namespace System
variable (cfg : Config)

/-- `selectThread` with its answer, nothing in between. -/
def selectAnswered (id : ThreadId) (conv : Conversation) (s : System) : System :=
  conversation s.selects.length (some conv) (selectThread cfg id false s)

theorem store_selectAnswered {s : System} {id : ThreadId} (hid : id ≠ s.store.activeId) (conv : Conversation) :
    (selectAnswered cfg id conv s).store =
      selectResolved id (Chat.selectThread id (nextConv cfg s) s.store).1 (some conv)
        (Chat.selectThread id (nextConv cfg s) s.store).2 := by
  have hne : ¬ s.store.activeId = id := fun h => hid h.symm
  simp [selectAnswered, selectThread, conversation, hne]

/-- In every state that can be reached: the resume id follows the rule of the messages
exactly when the thread had none, or has the remote one already and the remote copy is
newer, or has another one and the remote copy is not newer. -/
theorem session_follows_messages_iff (customer : Text) (storage : Finmap fun _ : Text => List Thread) (now : Text)
    (actions : List Action) (id : ThreadId) (t : Thread) (ms : List (Role × Text)) (u remote : Text)
    (hfound : findThread id ((machine cfg).run (init cfg customer storage now) actions).store = some t)
    (hid : id ≠ ((machine cfg).run (init cfg customer storage now) actions).store.activeId)
    (ht : t.messages ≠ []) (hms : ms ≠ []) (hu : u ≠ []) :
    ∃ t', lookup t.ref (selectAnswered cfg id ⟨ms, some u, some remote⟩
          ((machine cfg).run (init cfg customer storage now) actions)).store = some t' ∧
      t'.messages = (if textLt t.updatedAt u = true then tagged id ms else t.messages) ∧
      ((t'.ccSessionId = some remote ↔ t.ccSessionId = none ∨ textLt t.updatedAt u = true) ↔
        t.ccSessionId = none ∨ (t.ccSessionId = some remote ∧ textLt t.updatedAt u = true) ∨
          (t.ccSessionId ≠ some remote ∧ textLt t.updatedAt u = false)) := by
  have hwell := (machine cfg).run_invariant (P := fun s => WellFormed s.store) (wellFormed_step cfg)
    (init cfg customer storage now) actions (wellFormed_init cfg customer storage now)
  set s := (machine cfg).run (init cfg customer storage now) actions with hs
  obtain ⟨htarget, t₁, hlookup, href, hcopy⟩ := selectThread_waits hid hwell.unique hfound (nextConv cfg s)
  obtain ⟨t', ht', hmessages, hsession⟩ :=
    selectResolved_thread hlookup href ⟨ms, some u, some remote⟩
  have ht₁ : t₁.messages ≠ [] := by
    rw [hcopy.messages]
    exact ht
  rw [mergedSession_takenOver ht₁ hms hu, hcopy.ccSessionId] at hsession
  refine ⟨t', ?_, ?_, ?_⟩
  · rw [store_selectAnswered cfg hid, htarget]
    exact ht'
  · have hwins := cloudWins_of_messages ht₁ hms hu (some remote)
    rw [hcopy.updatedAt] at hwins
    rw [hmessages, takenOver, hwins]
    by_cases hlt : textLt t.updatedAt u = true
    · simp [hlt]
    · simp [hlt, hcopy.messages]
  · rw [hsession]
    cases hlocal : t.ccSessionId with
    | none => simp
    | some c =>
      by_cases hc : c = remote
      · subst hc
        simp
      · cases textLt t.updatedAt u <;> simp [hc]

/-- Two saved threads; the second one has a resume id. -/
def savedThread (ref : ℕ) (id : ThreadId) (session : Option Text) : Thread :=
  { ref := ref, id := id, customer := [], conversationId := some id, messages := [⟨.user, tag id "Hi".toList⟩],
    updatedAt := "2026-01-01".toList, ccSessionId := session, isStreaming := false, bgReply := [], bgSession := none,
    bgConv := none, panel := .empty }

def savedPair : Finmap fun _ : Text => List Thread :=
  Finmap.singleton (threadsKey [])
    [savedThread 0 "thread-2".toList none, savedThread 0 "thread-1".toList (some "old".toList)]

theorem session_follows_messages_iff_sample :
    ∃ t', lookup 1 (selectAnswered Config.plain "thread-1".toList
          ⟨[(.user, "Hi".toList)], some "2025-12-01".toList, some "new".toList⟩
          ((machine Config.plain).run (init Config.plain [] savedPair []) [])).store = some t' ∧
      (t'.ccSessionId = some "new".toList ↔
        some "old".toList = none ∨ textLt "2026-01-01".toList "2025-12-01".toList = true) := by
  obtain ⟨t', ht', -, hiff⟩ := session_follows_messages_iff Config.plain [] savedPair [] [] "thread-1".toList
    (savedThread 1 "thread-1".toList (some "old".toList)) [(.user, "Hi".toList)] "2025-12-01".toList "new".toList
    (by decide +kernel) (by decide +kernel) (by decide) (by decide) (by decide)
  exact ⟨t', ht', hiff.mpr (Or.inr (Or.inr ⟨by decide, by decide⟩))⟩

/-- A newer remote copy: its messages are taken, its resume id is not. -/
theorem stale_session_kept :
    findThread "thread-1".toList (init Config.plain [] savedPair []).store =
        some (savedThread 1 "thread-1".toList (some "old".toList)) ∧
      textLt "2026-01-01".toList "2026-02-01".toList = true ∧
      ((lookup 1 (selectAnswered Config.plain "thread-1".toList
          ⟨[(.user, "Later".toList)], some "2026-02-01".toList, some "new".toList⟩
          (init Config.plain [] savedPair [])).store).map fun t => (t.messages, t.ccSessionId)) =
        some ([⟨.user, tag "thread-1".toList "Later".toList⟩], some "old".toList) := by
  refine ⟨by decide +kernel, by decide, by decide +kernel⟩

end System

end AgentWorkflow.Desktop.Chat
