import AgentWorkflow.Desktop.ChatSteps

/-!
# Deleting threads

`deleteThread` looks up the position of its thread before the request and uses it after
the answer. It removes the thread it was called for, and nothing else, exactly when that
position is still the thread's own.
-/

namespace AgentWorkflow.Desktop.Chat
open AgentWorkflow.Lib AgentWorkflow.Lib.Calendar

def refsOf (s : Store) : List ℕ := s.threads.map Thread.ref

/-- The objects with the id leave the list, all others stay. -/
def Removes (id : ThreadId) (s s' : Store) : Prop := ∀ t ∈ s.threads, (t.ref ∈ refsOf s' ↔ t.id ≠ id)

/-- The thread with the id is at the position, or there is none and the position is past the end. -/
def Placed (id : ThreadId) (idx : ℕ) (s : Store) : Prop := ∀ n t, s.threads[n]? = some t → (t.id = id ↔ n = idx)

/-- The active thread is in the list. -/
def ActiveListed (s : Store) : Prop := ∃ t ∈ s.threads, t.id = s.activeId

theorem RefsUnique.nodup {s : Store} (h : RefsUnique s) : (refsOf s).Nodup := by
  have hsub : (refsOf s).Sublist ((s.threads ++ s.detached).map Thread.ref) := by
    rw [List.map_append]
    exact List.sublist_append_left _ _
  exact hsub.nodup h

theorem ref_mem_splice {s : Store} (h : RefsUnique s) {idx n : ℕ} {t : Thread} (hn : s.threads[n]? = some t) :
    t.ref ∈ refsOf (spliceThread idx s) ↔ n ≠ idx := by
  have hlt := (List.getElem?_eq_some_iff.mp hn).1
  constructor
  · intro hmem heq
    obtain ⟨u, hu, href⟩ := List.mem_map.mp hmem
    obtain ⟨m, hne, hm⟩ := List.mem_eraseIdx_iff_getElem?.mp hu
    have hut : u = t := h.eq_threads (List.mem_of_getElem? hm) (List.mem_of_getElem? hn) href
    subst hut
    have hnodup : s.threads.Nodup := h.nodup.of_map _
    exact hne (((List.getElem?_inj hlt hnodup).mp (by rw [hn, hm])).symm.trans heq)
  · intro hne
    exact List.mem_map_of_mem (List.mem_eraseIdx_iff_getElem?.mpr ⟨n, hne, hn⟩)

theorem removes_splice_iff {s : Store} (h : RefsUnique s) (id : ThreadId) (idx : ℕ) :
    Removes id s (spliceThread idx s) ↔ Placed id idx s := by
  constructor
  · intro hr n t hn
    have ht := hr t (List.mem_of_getElem? hn)
    rw [ref_mem_splice h hn] at ht
    exact not_iff_not.mp ht.symm
  · intro hp t ht
    obtain ⟨n, hn⟩ := List.mem_iff_getElem?.mp ht
    rw [ref_mem_splice h hn]
    exact not_congr (hp n t hn).symm

/-! ### What follows the removal -/

theorem Frame.refsOf {s s' : Store} (h : Frame ident s s') : refsOf s' = refsOf s := by
  have hcomp : Thread.ref = Ident.ref ∘ ident := rfl
  rw [Chat.refsOf, Chat.refsOf, hcomp, ← List.map_map, h.threads, List.map_map]

theorem Frame.activeListed {s s' : Store} (h : Frame ident s s') (ha : ActiveListed s) : ActiveListed s' := by
  obtain ⟨t, ht, heq⟩ := ha
  have hmem : t.id ∈ s'.threads.map Thread.id := by
    rw [h.ids]
    exact List.mem_map_of_mem ht
  obtain ⟨u, hu, hid⟩ := List.mem_map.mp hmem
  exact ⟨u, hu, by rw [hid, heq, h.activeId]⟩

namespace System
variable (cfg : Config)

theorem refsOf_selectThread (id : ThreadId) (persists : Bool) (s : System) :
    refsOf (selectThread cfg id persists s).store = refsOf s.store := by
  unfold selectThread
  split
  · split
    · rfl
    · rfl
  · exact (frame_selectThread (g := ident) (fun t _ _ => settled_ident t) _).refsOf

theorem activeListed_selectThread {id : ThreadId} (persists : Bool) {s : System} (hid : ∃ t ∈ s.store.threads, t.id = id) :
    ActiveListed (selectThread cfg id persists s).store := by
  unfold selectThread
  split
  · next heq =>
    rw [← heq] at hid
    split
    · exact hid
    · exact hid
  · exact (frame_selectThread (g := ident) (fun t _ _ => settled_ident t) _).activeListed hid

theorem activeListed_createThread (now : Text) (s : System) : ActiveListed (createThread cfg now s).store := by
  apply (frame_createThread cfg (nextConv cfg s) now s.store).activeListed
  exact ⟨_, List.mem_cons_self, rfl⟩

/-- Of the objects that were there, those that stay are those that the splice leaves. -/
theorem refsOf_deleted (id : ThreadId) (idx : ℕ) (now : Text) {s : System} (h : WellFormed s.store) {t : Thread}
    (ht : t ∈ s.store.threads) :
    t.ref ∈ refsOf (deleted cfg id idx now s).store ↔ t.ref ∈ refsOf (spliceThread idx s.store) := by
  unfold deleted
  dsimp only
  split
  · split
    · next hnil =>
      have hlt : t.ref < s.store.nextRef := h.below _ (List.mem_map_of_mem (List.mem_append_left _ ht))
      have hrefs : refsOf (Chat.createThread cfg (nextConv cfg { s with store := spliceThread idx s.store }) now
          (spliceThread idx s.store)) = s.store.nextRef :: refsOf (spliceThread idx s.store) :=
        (frame_createThread cfg _ now _).refsOf
      show t.ref ∈ refsOf (Chat.createThread cfg _ now _) ↔ _
      rw [hrefs, List.mem_cons]
      constructor
      · intro hor
        exact hor.resolve_left (by omega)
      · exact Or.inr
    · rw [refsOf_selectThread]
  · rfl

theorem activeListed_deleted {id : ThreadId} {idx : ℕ} (now : Text) {s : System} (h : WellFormed s.store)
    (ha : ActiveListed s.store) (hp : Placed id idx s.store) : ActiveListed (deleted cfg id idx now s).store := by
  unfold deleted
  dsimp only
  split
  · split
    · exact (Frame.persist _).activeListed (activeListed_createThread cfg now _)
    · next t ts heq =>
      apply activeListed_selectThread
      exact ⟨t, by rw [heq]; exact List.mem_cons_self, rfl⟩
  · next hne =>
    apply (Frame.persist _).activeListed
    obtain ⟨t, ht, hid⟩ := ha
    have hstays := ((removes_splice_iff h.unique id idx).mpr hp t ht).mpr (by rw [hid]; exact hne)
    obtain ⟨u, hu, href⟩ := List.mem_map.mp hstays
    have hut : u = t := h.unique.eq_threads (List.mem_of_mem_eraseIdx hu) ht href
    rw [hut] at hu
    exact ⟨t, hu, hid⟩

theorem loaded_ne_nil (used : ℕ) (now : Text) (s : Store) : (loadPersistedThreads cfg used now s).1 ≠ [] := by
  unfold loadPersistedThreads
  dsimp only
  split
  · simp
  · next hne => simpa using hne

theorem activeListed_adoptThreads {loaded : List Thread × ℕ} (h : loaded.1 ≠ []) (s : Store) :
    ActiveListed (adoptThreads loaded s) := by
  obtain ⟨t, ts, heq⟩ := List.exists_cons_of_ne_nil h
  refine ⟨t, ?_, ?_⟩
  · simp only [adoptThreads, heq]
    exact List.mem_cons_self
  · simp only [adoptThreads, heq]
    rfl

theorem activeListed_fetchHistory {s : Store} (h : ActiveListed s) (customer : Text) (listing : List Listed) :
    ActiveListed (fetchHistory cfg customer listing s) := by
  have hfold : ActiveListed (listing.foldl (mergeListed customer) s) := by
    induction listing generalizing s with
    | nil => exact h
    | cons l ls ih =>
      apply ih
      rcases mergeListed_cases customer s l with ⟨t, -, -, -, -, -, -, -, -, heq⟩ | ⟨-, heq | ⟨ref, heq⟩⟩
      · rw [heq]
        obtain ⟨u, hu, hid⟩ := h
        exact ⟨u, List.mem_append_left _ hu, hid⟩
      · rw [heq]
        exact h
      · rw [heq]
        exact (Frame.update ref (by intro t; rfl) s).activeListed h
  unfold fetchHistory
  split
  · exact h
  · obtain ⟨t, ht, hid⟩ := hfold
    exact ⟨t, (List.mergeSort_perm _ _).mem_iff.mpr ht, hid⟩

/-! ### Every step -/

/-- What a step has to do for the deletions: the answer of a pending one removes its
thread only, an error changes nothing, and the active thread is in the list. -/
def DeletesMeet (s : System) (a : Action) : Prop :=
  (∀ k answer now, a = .deleteAnswer k answer now → ∀ c, s.deletes[k]? = some c → c.pending = true →
    if answer = .failed then (step cfg s a).store = s.store else Removes c.id s.store (step cfg s a).store) ∧
  ActiveListed (step cfg s a).store

/-- When a step does it: the position of a deletion is still that of its thread, and
`selectThread` is called for a thread of the list. -/
def DeletesMay (s : System) : Action → Prop
  | .deleteAnswer k answer _ => ∀ c, s.deletes[k]? = some c → c.pending = true → answer ≠ .failed → Placed c.id c.idx s.store
  | .selectThread id => ∃ t ∈ s.store.threads, t.id = id
  | _ => True

theorem step_deleteAnswer {k : ℕ} {answer : DeleteAnswer} {now : Text} {s : System} {c : DeleteCall}
    (hk : s.deletes[k]? = some c) (hp : c.pending = true) (ha : answer ≠ .failed) :
    step cfg s (.deleteAnswer k answer now) =
      deleted cfg c.id c.idx now { s with deletes := s.deletes.set k { c with pending := false } } := by
  simp only [step, deleteAnswer, hk, hp, Bool.true_eq_false, if_false]
  cases answer with
  | failed => exact absurd rfl ha
  | deleted => rfl
  | notFound => rfl

theorem step_deleteAnswer_failed {k : ℕ} {now : Text} (s : System) :
    (step cfg s (.deleteAnswer k .failed now)).store = s.store := by
  unfold step deleteAnswer
  dsimp only
  split
  · rfl
  · split
    · rfl
    · rfl

theorem removes_deleteAnswer_iff {k : ℕ} {answer : DeleteAnswer} {now : Text} {s : System} {c : DeleteCall}
    (h : WellFormed s.store) (hk : s.deletes[k]? = some c) (hp : c.pending = true) (ha : answer ≠ .failed) :
    Removes c.id s.store (step cfg s (.deleteAnswer k answer now)).store ↔ Placed c.id c.idx s.store := by
  rw [step_deleteAnswer cfg hk hp ha, ← removes_splice_iff h.unique]
  apply forall₂_congr
  intro t ht
  have hrefs := refsOf_deleted cfg c.id c.idx now
    (s := { s with deletes := s.deletes.set k { c with pending := false } }) h ht
  exact iff_congr hrefs Iff.rfl

/-- The active thread stays in the list in every step that may. -/
theorem activeListed_step {s : System} {a : Action} (h : WellFormed s.store) (ha : ActiveListed s.store)
    (hmay : DeletesMay s a) : ActiveListed (step cfg s a).store := by
  by_cases hq : a.quiet = true
  · exact (frame_step_ident cfg hq).activeListed ha
  · cases a with
    | createThread now => exact activeListed_createThread cfg now s
    | selectThread id => exact activeListed_selectThread cfg false hmay
    | conversation k answer =>
      unfold step conversation
      dsimp only
      split
      · exact ha
      · split
        · exact ha
        · next c _ _ =>
          have hr := (frame_selectResolved c.id c.target answer s.store).activeListed ha
          dsimp only
          split
          · exact hr
          · exact hr
    | historyAnswer k listing =>
      unfold step historyAnswer
      dsimp only
      split
      · exact ha
      · split
        · exact ha
        · exact activeListed_fetchHistory cfg ha _ listing
    | deleteAnswer k answer now =>
      by_cases hf : answer = .failed
      · subst hf
        rw [step_deleteAnswer_failed]
        exact ha
      · cases hk : s.deletes[k]? with
        | none =>
          simp only [step, deleteAnswer, hk]
          exact ha
        | some c =>
          cases hp : c.pending with
          | false =>
            simp only [step, deleteAnswer, hk, hp, if_true]
            exact ha
          | true =>
            rw [step_deleteAnswer cfg hk hp hf]
            exact activeListed_deleted cfg now
              (s := { s with deletes := s.deletes.set k { c with pending := false } }) h ha (hmay c hk hp hf)
    | setCustomer customer => exact ha
    | userChanged now => exact activeListed_adoptThreads (loaded_ne_nil cfg _ now _) _
    | reload now => exact activeListed_adoptThreads (loaded_ne_nil cfg _ now _) _
    | _ => exact absurd rfl hq

theorem deletesMeet_iff {s : System} (a : Action) (h : WellFormed s.store) (ha : ActiveListed s.store) :
    DeletesMeet cfg s a ↔ DeletesMay s a := by
  constructor
  · rintro ⟨hdel, hactive⟩
    cases a with
    | deleteAnswer k answer now =>
      intro c hk hp hf
      have hr := hdel k answer now rfl c hk hp
      rw [if_neg hf] at hr
      exact (removes_deleteAnswer_iff cfg h hk hp hf).mp hr
    | selectThread id =>
      obtain ⟨t, ht, hid⟩ := hactive
      change t ∈ (selectThread cfg id false s).store.threads at ht
      change t.id = (selectThread cfg id false s).store.activeId at hid
      by_cases heq : s.store.activeId = id
      · rw [← heq]
        exact ha
      · simp only [selectThread, if_neg heq] at ht hid
        have hf : Frame ident { s.store with activeId := id } (Chat.selectThread id (nextConv cfg s) s.store).2 :=
          frame_selectThread (fun t _ _ => settled_ident t) _
        obtain ⟨u, hu, hident⟩ := hf.mem ht
        exact ⟨u, hu, (congrArg Ident.id hident).trans (hid.trans hf.activeId)⟩
    | _ => trivial
  · intro hmay
    refine ⟨?_, activeListed_step cfg h ha hmay⟩
    rintro k answer now rfl c hk hp
    split
    · next hf =>
      subst hf
      exact step_deleteAnswer_failed cfg s
    · next hf => exact (removes_deleteAnswer_iff cfg h hk hp hf).mpr (hmay c hk hp hf)

end System

end AgentWorkflow.Desktop.Chat
