import AgentWorkflow.Desktop.ChatSteps

/-!
# The identity of threads

A thread that the store makes has an id with a number and a conversation id of its own;
a thread made from the listing has the id of its conversation and none. The keys of the
list say which of the two a thread is, and what conversation it stands for.
-/

namespace AgentWorkflow.Desktop.Chat
open AgentWorkflow.Lib AgentWorkflow.Lib.Calendar

/-- What `crypto.randomUUID` is used for: ids that are new and no thread's number. -/
structure Config.Fresh (cfg : Config) : Prop where
  injective : Function.Injective cfg.genConvId
  other : ∀ m n, cfg.genConvId m ≠ threadId n

/-- An id that the store gave to a thread of its own. -/
def Local (id : ThreadId) : Prop := ∃ n, id = threadId n

/-- The conversations that a thread stands for. -/
def Denotes (t : Thread) (c : ConvId) : Prop := t.conversationId = some c ∨ (¬ Local t.id ∧ t.id = c)

structure Keyed (cfg : Config) (convs : List ThreadId) (ks : List (ThreadId × Option ConvId)) : Prop where
  nodup : (ks.map Prod.fst).Nodup
  own : ∀ id c, (id, some c) ∈ ks → Local id ∧ ∃ m, c = cfg.genConvId m ∧ convs[m]? = some id
  bare : ∀ id, (id, none) ∈ ks → ¬ Local id
  apart : ∀ id c o, (id, some c) ∈ ks → (c, o) ∉ ks
  made : ∀ k ∈ ks, ∀ m, k.1 = cfg.genConvId m → m < convs.length

/-- The numbers of the store's own ids are below the counter. -/
def Numbered (counter : ℕ) (ks : List (ThreadId × Option ConvId)) : Prop :=
  ∀ k ∈ ks, ∀ n, k.1 = threadId n → n < counter

section Keyed
variable {cfg : Config} {convs : List ThreadId} {ks : List (ThreadId × Option ConvId)}

theorem Keyed.of_sublist {ks' : List (ThreadId × Option ConvId)} (h : Keyed cfg convs ks) (hs : ks'.Sublist ks) :
    Keyed cfg convs ks' :=
  { nodup := (hs.map Prod.fst).nodup h.nodup
    own := fun id c hk => h.own id c (hs.mem hk)
    bare := fun id hk => h.bare id (hs.mem hk)
    apart := fun id c o hk hk' => h.apart id c o (hs.mem hk) (hs.mem hk')
    made := fun k hk => h.made k (hs.mem hk) }

theorem Keyed.of_perm {ks' : List (ThreadId × Option ConvId)} (h : Keyed cfg convs ks) (hp : ks'.Perm ks) :
    Keyed cfg convs ks' :=
  { nodup := (hp.map Prod.fst).nodup_iff.mpr h.nodup
    own := fun id c hk => h.own id c (hp.mem_iff.mp hk)
    bare := fun id hk => h.bare id (hp.mem_iff.mp hk)
    apart := fun id c o hk hk' => h.apart id c o (hp.mem_iff.mp hk) (hp.mem_iff.mp hk')
    made := fun k hk => h.made k (hp.mem_iff.mp hk) }

theorem Keyed.mono {convs' : List ThreadId} (h : Keyed cfg convs ks) (hp : convs <+: convs') : Keyed cfg convs' ks := by
  obtain ⟨l, rfl⟩ := hp
  refine ⟨h.nodup, ?_, h.bare, h.apart, ?_⟩
  · intro id c hk
    obtain ⟨hlocal, m, hc, hm⟩ := h.own id c hk
    refine ⟨hlocal, m, hc, ?_⟩
    rw [List.getElem?_append_left (List.getElem?_eq_some_iff.mp hm).1]
    exact hm
  · intro k hk m hm
    have hlt := h.made k hk m hm
    rw [List.length_append]
    omega

/-- A thread of the store's own, with the next number and the next conversation id. -/
theorem Keyed.create (h : Keyed cfg convs ks) (hf : cfg.Fresh) {counter : ℕ} (hn : Numbered counter ks) :
    Keyed cfg (convs ++ [threadId counter]) ((threadId counter, some (cfg.genConvId convs.length)) :: ks) := by
  have hold := h.mono (List.prefix_append convs [threadId counter])
  have hconv : ∀ id c, (id, some c) ∈ ks → ∃ m, c = cfg.genConvId m := by
    intro id c hk
    obtain ⟨-, m, hc, -⟩ := h.own id c hk
    exact ⟨m, hc⟩
  constructor
  · refine List.nodup_cons.mpr ⟨?_, h.nodup⟩
    intro hmem
    obtain ⟨k, hk, hid⟩ := List.mem_map.mp hmem
    exact absurd (hn k hk counter hid) (lt_irrefl _)
  · intro id c hk
    cases List.mem_cons.mp hk with
    | inl heq =>
      obtain ⟨hid, hc⟩ := Prod.mk.inj heq
      rw [hid]
      exact ⟨⟨counter, rfl⟩, convs.length, Option.some.inj hc, by simp⟩
    | inr hk => exact hold.own id c hk
  · intro id hk
    cases List.mem_cons.mp hk with
    | inl heq => cases (Prod.mk.inj heq).2
    | inr hk => exact h.bare id hk
  · intro id c o hk hk'
    cases List.mem_cons.mp hk with
    | inl heq =>
      have hc := Option.some.inj (Prod.mk.inj heq).2
      cases List.mem_cons.mp hk' with
      | inl heq' => exact hf.other _ _ (hc.symm.trans (Prod.mk.inj heq').1)
      | inr hk' => exact absurd (h.made _ hk' _ hc) (lt_irrefl _)
    | inr hk =>
      obtain ⟨m, hm⟩ := hconv id c hk
      cases List.mem_cons.mp hk' with
      | inl heq' => exact hf.other m counter (hm.symm.trans (Prod.mk.inj heq').1)
      | inr hk' => exact h.apart id c o hk hk'
  · intro k hk m hm
    cases List.mem_cons.mp hk with
    | inl heq =>
      rw [heq] at hm
      exact absurd hm.symm (hf.other m counter)
    | inr hk => exact hold.made k hk m hm

/-- A thread made from the listing. -/
theorem Keyed.push (h : Keyed cfg convs ks) {id : ThreadId} (hnew : id ∉ ks.map Prod.fst) (hlocal : ¬ Local id)
    (hmade : ∀ m, id = cfg.genConvId m → m < convs.length) (hapart : ∀ id', (id', some id) ∉ ks) :
    Keyed cfg convs (ks ++ [(id, none)]) := by
  have hmem {k : ThreadId × Option ConvId} (hk : k ∈ ks ++ [(id, none)]) : k ∈ ks ∨ k = (id, none) := by
    simpa using hk
  constructor
  · rw [List.map_append]
    apply List.nodup_append'.mpr
    refine ⟨h.nodup, List.nodup_singleton _, ?_⟩
    intro x hx hx'
    rw [List.mem_singleton.mp hx'] at hx
    exact hnew hx
  · intro id' c hk
    cases hmem hk with
    | inl hk => exact h.own id' c hk
    | inr heq => cases (Prod.mk.inj heq).2
  · intro id' hk
    cases hmem hk with
    | inl hk => exact h.bare id' hk
    | inr heq =>
      rw [(Prod.mk.inj heq).1]
      exact hlocal
  · intro id' c o hk hk'
    cases hmem hk with
    | inl hk =>
      cases hmem hk' with
      | inl hk' => exact h.apart id' c o hk hk'
      | inr heq =>
        rw [(Prod.mk.inj heq).1] at hk
        exact hapart id' hk
    | inr heq => cases (Prod.mk.inj heq).2
  · intro k hk m hm
    cases hmem hk with
    | inl hk => exact h.made k hk m hm
    | inr heq =>
      rw [heq] at hm
      exact hmade m hm

theorem key_mem {t : Thread} {ts : List Thread} (h : t ∈ ts) : (t.id, t.conversationId) ∈ ts.map key :=
  List.mem_map_of_mem h

theorem Keyed.eq_of_id {ts : List Thread} (h : Keyed cfg convs (ts.map key)) {t u : Thread} (ht : t ∈ ts) (hu : u ∈ ts)
    (heq : t.id = u.id) : t = u := by
  have hnodup : (ts.map Thread.id).Nodup := by
    have hn := h.nodup
    rwa [List.map_map] at hn
  exact List.inj_on_of_nodup_map hnodup ht hu heq

/-- Two threads of the list stand for different conversations. -/
theorem Keyed.denotes_unique {ts : List Thread} (h : Keyed cfg convs (ts.map key)) (hf : cfg.Fresh) {t u : Thread}
    (ht : t ∈ ts) (hu : u ∈ ts) {c : ConvId} (htc : Denotes t c) (huc : Denotes u c) : t = u := by
  have hkt := key_mem ht
  have hku := key_mem hu
  cases htc with
  | inl htc =>
    rw [htc] at hkt
    cases huc with
    | inl huc =>
      rw [huc] at hku
      obtain ⟨-, m, hm, hcm⟩ := h.own _ _ hkt
      obtain ⟨-, m', hm', hcm'⟩ := h.own _ _ hku
      rw [hf.injective (hm.symm.trans hm'), hcm'] at hcm
      exact h.eq_of_id ht hu (Option.some.inj hcm).symm
    | inr huc =>
      rw [huc.2] at hku
      exact absurd hku (h.apart _ _ _ hkt)
  | inr htc =>
    cases huc with
    | inl huc =>
      rw [huc] at hku
      rw [htc.2] at hkt
      exact absurd hkt (h.apart _ _ _ hku)
    | inr huc => exact h.eq_of_id ht hu (htc.2.trans huc.2.symm)

end Keyed

/-! ### The numbers of the ids -/

theorem threadNumber_threadId (n : ℕ) : threadNumber (threadId n) = some n := by
  have hmatch : Numbered.matchNumber threadPrefix (threadId n) = some n := by
    have hall : (Numbered.zeroPadded 1 n).takeWhile Numbered.isDigit = Numbered.zeroPadded 1 n :=
      List.takeWhile_eq_self_iff.mpr (Numbered.zeroPadded_digits 1 n)
    have hne : Numbered.zeroPadded 1 n ≠ [] := by
      intro h
      have hlen := congrArg List.length h
      simp only [Numbered.zeroPadded, List.length_reverse, List.length_map, List.length_append, List.length_replicate,
        List.length_nil] at hlen
      omega
    simp only [Numbered.matchNumber, threadId, List.drop_left, hall]
    rw [if_pos ⟨by simp, hne⟩, Numbered.value_zeroPadded]
  cases hid : threadId n with
  | nil => exact absurd hid (by simp [threadId, threadPrefix])
  | cons c t =>
    rw [threadNumber, ← hid, hmatch]
    rfl

theorem le_foldl_threadNumber (ts : List Thread) (m : ℕ) :
    m ≤ ts.foldl (fun n t => max n ((threadNumber t.id).getD 0)) m ∧
      ∀ t ∈ ts, ∀ n, threadNumber t.id = some n → n ≤ ts.foldl (fun n t => max n ((threadNumber t.id).getD 0)) m := by
  induction ts generalizing m with
  | nil => simp
  | cons u ts ih =>
    obtain ⟨hle, hall⟩ := ih (max m ((threadNumber u.id).getD 0))
    refine ⟨le_trans (le_max_left _ _) hle, ?_⟩
    intro t ht n hn
    cases List.mem_cons.mp ht with
    | inl heq =>
      rw [heq] at hn
      rw [hn] at hle
      exact le_trans (le_max_right m n) (by simpa [hn] using hle)
    | inr ht => exact hall t ht n hn

theorem numbered_maxThreadNumber (ts : List Thread) : Numbered (maxThreadNumber ts + 1) (ts.map key) := by
  intro k hk n hn
  obtain ⟨t, ht, rfl⟩ := List.mem_map.mp hk
  have hle := (le_foldl_threadNumber ts 1).2 t ht n (by rw [show t.id = threadId n from hn, threadNumber_threadId])
  exact Nat.lt_succ_of_le hle

/-! ### What localStorage holds -/

section Saved
variable {β : Type*} {g : Thread → β}

/-- What is saved is the beginning of the list. -/
def Saved (g : Thread → β) (s : Store) : Prop :=
  savedThreads s ≠ [] → (savedThreads s).map g = (s.threads.map g).take 50

theorem saved_persist [Blind g] (s : Store) : Saved g (persist s) := by
  intro _
  rw [savedThreads_persist, map_truncated, List.map_take]
  rfl

theorem Saved.frame {s s' : Store} (h : Saved g s) (hf : Frame g s s') : Saved g s' := by
  intro hne
  rw [hf.threads]
  cases hf.saved with
  | inl heq =>
    rw [heq]
    apply h
    intro hnil
    rw [hnil, List.map_nil] at heq
    exact hne (List.map_eq_nil_iff.mp heq)
  | inr hnew => exact hnew

end Saved

/-! ### The listing -/

/-- What a listing may add to the list of threads `s₀`. -/
structure Grown (cfg : Config) (convs : List ThreadId) (s₀ s : Store) : Prop where
  keyed : Keyed cfg convs (s.threads.map key)
  numbered : Numbered s.counter (s.threads.map key)
  active : s.activeId = s₀.activeId
  old : ∀ k ∈ s.threads.map key, k ∈ s₀.threads.map key ∨ (k.1 ∉ (s₀.threads.map key).map Prod.fst ∧ k.2 = none)
  kept : ∀ k ∈ s₀.threads.map key, k ∈ s.threads.map key

/-- A listing that a server can give, and that names none of the conversations that
threads of the list have. -/
def Acceptable (cfg : Config) (convs : List ThreadId) (s : Store) (l : Listed) : Prop :=
  ¬ Local l.id ∧ (∀ m, l.id = cfg.genConvId m → m < convs.length) ∧ ∀ t ∈ s.threads, t.conversationId ≠ some l.id

theorem Grown.merge {cfg : Config} {convs : List ThreadId} {s₀ s : Store} (h : Grown cfg convs s₀ s) {l : Listed}
    (hl : Acceptable cfg convs s₀ l) (customer : Text) : Grown cfg convs s₀ (mergeListed customer s l) := by
  obtain ⟨hlocal, hmade, hapart⟩ := hl
  rcases mergeListed_cases customer s l with ⟨t, hident, hnone, -, -, -, -, -, hnew, heq⟩ | ⟨-, heq | ⟨ref, heq⟩⟩
  · have hkey : key t = (l.id, none) := Prod.ext (congrArg Ident.id hident) hnone
    have hkeys : (s.threads ++ [t]).map key = s.threads.map key ++ [(l.id, none)] := by
      rw [List.map_append, List.map_singleton, hkey]
    have hfresh : l.id ∉ (s.threads.map key).map Prod.fst := by
      intro hmem
      rw [List.map_map] at hmem
      obtain ⟨u, hu, hid⟩ := List.mem_map.mp hmem
      exact hnew u hu hid
    rw [heq]
    constructor
    · show Keyed cfg convs ((s.threads ++ [t]).map key)
      rw [hkeys]
      apply h.keyed.push hfresh hlocal hmade
      intro id' hmem
      cases h.old _ hmem with
      | inl hold =>
        obtain ⟨u, hu, hku⟩ := List.mem_map.mp hold
        exact hapart u hu (congrArg Prod.snd hku)
      | inr hold => cases hold.2
    · intro k hk n hn
      have hk' : k ∈ (s.threads ++ [t]).map key := hk
      rw [hkeys] at hk'
      cases List.mem_append.mp hk' with
      | inl hk' => exact h.numbered k hk' n hn
      | inr hk' =>
        rw [List.mem_singleton.mp hk'] at hn
        exact absurd ⟨n, hn⟩ hlocal
    · exact h.active
    · intro k hk
      have hk' : k ∈ (s.threads ++ [t]).map key := hk
      rw [hkeys] at hk'
      cases List.mem_append.mp hk' with
      | inl hk' => exact h.old k hk'
      | inr hk' =>
        rw [List.mem_singleton.mp hk']
        refine Or.inr ⟨?_, rfl⟩
        intro hmem
        obtain ⟨k₀, hk₀, hid⟩ := List.mem_map.mp hmem
        exact hfresh (List.mem_map.mpr ⟨k₀, h.kept k₀ hk₀, hid⟩)
    · intro k hk
      show k ∈ (s.threads ++ [t]).map key
      rw [hkeys]
      exact List.mem_append_left _ (h.kept k hk)
  · rw [heq]
    exact h
  · have hmap := (map_update key ref (f := fun t => { t with updatedAt := l.updatedAt }) (by intro t; rfl) s).1
    rw [heq]
    exact ⟨by rw [hmap]; exact h.keyed, by rw [hmap]; exact h.numbered, h.active, by rw [hmap]; exact h.old,
      by rw [hmap]; exact h.kept⟩

theorem Grown.fold {cfg : Config} {convs : List ThreadId} {s₀ s : Store} (h : Grown cfg convs s₀ s) (customer : Text)
    {listing : List Listed} (hl : ∀ l ∈ listing, Acceptable cfg convs s₀ l) :
    Grown cfg convs s₀ (listing.foldl (mergeListed customer) s) := by
  induction listing generalizing s with
  | nil => exact h
  | cons l ls ih =>
    apply ih (h.merge (hl l List.mem_cons_self) customer)
    intro l' hl'
    exact hl l' (List.mem_cons_of_mem _ hl')

theorem Grown.fetch {cfg : Config} {convs : List ThreadId} {s : Store} (h : Grown cfg convs s s) (customer : Text)
    {listing : List Listed} (hl : ∀ l ∈ listing, Acceptable cfg convs s l) :
    Grown cfg convs s (fetchHistory cfg customer listing s) := by
  unfold fetchHistory
  split
  · exact h
  · have hfold := h.fold customer hl
    have hperm := (List.mergeSort_perm (listing.foldl (mergeListed customer) s).threads
      fun a b => !cfg.later b.updatedAt a.updatedAt).map key
    refine ⟨hfold.keyed.of_perm hperm, ?_, hfold.active, ?_, ?_⟩
    · intro k hk
      exact hfold.numbered k (hperm.mem_iff.mp hk)
    · intro k hk
      exact hfold.old k (hperm.mem_iff.mp hk)
    · intro k hk
      exact hperm.mem_iff.mpr (hfold.kept k hk)

theorem saved_fetchHistory {s : Store} (h : Saved key s) (cfg : Config) (customer : Text) (listing : List Listed) :
    Saved key (fetchHistory cfg customer listing s) := by
  unfold fetchHistory
  split
  · exact h
  · exact saved_persist _

/-! ### Every step -/

/-- A thread of the list keeps the conversation it has. -/
def KeepsConvs (s s' : Store) : Prop :=
  ∀ t ∈ s.threads, ∀ t' ∈ s'.threads, t'.id = t.id → ∀ c, t.conversationId = some c → t'.conversationId = some c

theorem keepsConvs_of_keys {cfg : Config} {convs : List ThreadId} {s s' : Store} (h : Keyed cfg convs (s.threads.map key))
    (hk : ∀ k ∈ s'.threads.map key, k ∈ s.threads.map key ∨ k.1 ∉ (s.threads.map key).map Prod.fst) : KeepsConvs s s' := by
  intro t ht t' ht' hid c hc
  cases hk _ (key_mem ht') with
  | inl hmem =>
    obtain ⟨u, hu, hku⟩ := List.mem_map.mp hmem
    have hut : u = t := h.eq_of_id hu ht ((congrArg Prod.fst hku).trans hid)
    rw [← show u.conversationId = t'.conversationId from congrArg Prod.snd hku, hut]
    exact hc
  | inr hnew =>
    exfalso
    apply hnew
    exact List.mem_map.mpr ⟨_, key_mem ht, hid.symm⟩

theorem keepsConvs_refl {cfg : Config} {convs : List ThreadId} {s : Store} (h : Keyed cfg convs (s.threads.map key)) :
    KeepsConvs s s := by
  apply keepsConvs_of_keys h
  intro k hk
  exact Or.inl hk

/-- The operations among which identities have to be stable. -/
def Action.ofOneUser : Action → Bool
  | .setCustomer _ | .userChanged _ | .deleteAnswer _ _ _ => false
  | _ => true

namespace System
variable (cfg : Config)

structure Identified (s : System) : Prop where
  keyed : Keyed cfg s.convs (s.store.threads.map key)
  numbered : Numbered s.store.counter (s.store.threads.map key)
  saved : Saved key s.store
  active : Local s.store.activeId
  turns : ∀ x ∈ s.turns.map Turn.thread, Local x

/-- A server lists conversations whose ids were made before, and no ids of local threads. -/
def Consistent (s : System) : Action → Prop
  | .historyAnswer _ listing => ∀ l ∈ listing, ¬ Local l.id ∧ ∀ m, l.id = cfg.genConvId m → m < s.convs.length
  | _ => True

/-- No listing names the conversation of a thread of the list, and no thread without a
conversation id is selected or loaded, nor any before the list was saved. -/
def IdentityKept (s : System) : Action → Prop
  | .selectThread id => ∃ t ∈ s.store.threads, t.id = id ∧ t.conversationId ≠ none
  | .historyAnswer _ listing => ∀ l ∈ listing, ∀ t ∈ s.store.threads, t.conversationId ≠ some l.id
  | .reload _ => savedThreads s.store ≠ [] ∧ ∀ t ∈ savedThreads s.store, t.conversationId ≠ none
  | _ => True

theorem turns_local {s : System} (h : Identified cfg s) (a : Action) :
    ∀ x ∈ (step cfg s a).turns.map Turn.thread, Local x := by
  intro x hx
  cases turns_step cfg s a with
  | inl heq =>
    rw [heq] at hx
    exact h.turns x hx
  | inr heq =>
    rw [heq] at hx
    cases List.mem_append.mp hx with
    | inl hx => exact h.turns x hx
    | inr hx =>
      rw [List.mem_singleton.mp hx]
      exact h.active

/-- What leaves the keys, the counter and the active thread as they are. -/
theorem Identified.frame {s s' : System} (h : Identified cfg s) (hf : Frame key s.store s'.store) (hc : s.convs <+: s'.convs)
    (ht : ∀ x ∈ s'.turns.map Turn.thread, Local x) : Identified cfg s' ∧ KeepsConvs s.store s'.store := by
  refine ⟨⟨?_, ?_, h.saved.frame hf, ?_, ht⟩, ?_⟩
  · rw [hf.threads]
    exact h.keyed.mono hc
  · rw [hf.threads, hf.counter]
    exact h.numbered
  · rw [hf.activeId]
    exact h.active
  · apply keepsConvs_of_keys h.keyed
    intro k hk
    rw [hf.threads] at hk
    exact Or.inl hk

theorem identified_createThread {s : System} (h : Identified cfg s) (hf : cfg.Fresh) (now : Text) :
    Identified cfg (createThread cfg now s) ∧ KeepsConvs s.store (createThread cfg now s).store := by
  have hframe := frame_createThread (g := key) cfg (nextConv cfg s) now s.store
  have hkeys : (createThread cfg now s).store.threads.map key =
      (threadId s.store.counter, some (nextConv cfg s)) :: s.store.threads.map key := hframe.threads
  have hkeyed := h.keyed.create hf h.numbered
  refine ⟨⟨?_, ?_, saved_persist _, ?_, h.turns⟩, ?_⟩
  · rw [hkeys]
    exact hkeyed
  · intro k hk n hn
    have hcounter : (createThread cfg now s).store.counter = s.store.counter + 1 := hframe.counter
    rw [hcounter]
    rw [hkeys] at hk
    cases List.mem_cons.mp hk with
    | inl heq =>
      rw [heq] at hn
      have hcount := threadId_injective hn
      omega
    | inr hk =>
      have hlt := h.numbered k hk n hn
      omega
  · exact ⟨_, hframe.activeId⟩
  · apply keepsConvs_of_keys h.keyed
    intro k hk
    rw [hkeys] at hk
    cases List.mem_cons.mp hk with
    | inl heq =>
      right
      rw [heq]
      exact (List.nodup_cons.mp hkeyed.nodup).1
    | inr hk => exact Or.inl hk

theorem identified_reload {s : System} (h : Identified cfg s) (now : Text) (hne : savedThreads s.store ≠ [])
    (hconv : ∀ t ∈ savedThreads s.store, t.conversationId ≠ none) :
    Identified cfg (reload cfg now s) ∧ KeepsConvs s.store (reload cfg now s).store := by
  have hthreads : (reload cfg now s).store.threads =
      (savedThreads s.store).mapIdx fun n t => revived cfg s.convs.length s.store.nextRef t n := by
    show (loadPersistedThreads cfg s.convs.length now s.store).1 = _
    simp only [loadPersistedThreads, if_neg hne]
  have hkeys : (reload cfg now s).store.threads.map key = (savedThreads s.store).map key := by
    rw [hthreads]
    apply List.ext_getElem
    · simp
    · intro n hn hn'
      have hlt : n < (savedThreads s.store).length := by simpa using hn'
      have hsome := hconv _ (List.getElem_mem hlt)
      obtain ⟨c, hc⟩ := Option.ne_none_iff_exists'.mp hsome
      simp [key, revived, hc]
  have hsub : ((savedThreads s.store).map key).Sublist (s.store.threads.map key) := by
    rw [h.saved hne]
    exact List.take_sublist _ _
  have hcounter : (reload cfg now s).store.counter = maxThreadNumber (savedThreads s.store) + 1 := by
    show (loadPersistedThreads cfg s.convs.length now s.store).2 = _
    simp only [loadPersistedThreads, if_neg hne]
  refine ⟨⟨?_, ?_, ?_, ?_, h.turns⟩, ?_⟩
  · rw [hkeys]
    exact (h.keyed.of_sublist hsub).mono (List.prefix_append _ _)
  · rw [hkeys, hcounter]
    exact numbered_maxThreadNumber _
  · intro _
    have hlen : ((savedThreads s.store).map key).length ≤ 50 := by
      rw [h.saved hne]
      exact List.length_take_le _ _
    rw [hkeys, List.take_of_length_le hlen]
    rfl
  · obtain ⟨t, ts, heq⟩ := List.exists_cons_of_ne_nil hne
    have hactive : (reload cfg now s).store.activeId = t.id := by
      show (((loadPersistedThreads cfg s.convs.length now s.store).1.head?).map Thread.id).getD _ = _
      simp only [loadPersistedThreads, heq, List.mapIdx_cons]
      rfl
    have ht : t ∈ savedThreads s.store := by
      rw [heq]
      exact List.mem_cons_self
    obtain ⟨c, hc⟩ := Option.ne_none_iff_exists'.mp (hconv t ht)
    have hk := hsub.mem (key_mem ht)
    rw [hc] at hk
    rw [hactive]
    exact (h.keyed.own _ _ hk).1
  · apply keepsConvs_of_keys h.keyed
    intro k hk
    rw [hkeys] at hk
    exact Or.inl (hsub.mem hk)

theorem identified_selectThread {s : System} (h : Identified cfg s) {t : Thread} (ht : t ∈ s.store.threads)
    (hc : t.conversationId ≠ none) :
    Identified cfg (selectThread cfg t.id false s) ∧ KeepsConvs s.store (selectThread cfg t.id false s).store := by
  by_cases heq : s.store.activeId = t.id
  · simp only [selectThread, if_pos heq, Bool.false_eq_true, if_false]
    exact ⟨h, keepsConvs_refl h.keyed⟩
  · simp only [selectThread, if_neg heq]
    have hsettled : ∀ u ∈ s.store.threads, u.id = t.id → Settled key u := by
      intro u hu hid
      left
      rwa [h.keyed.eq_of_id hu ht hid]
    obtain ⟨c, hc⟩ := Option.ne_none_iff_exists'.mp hc
    have hkt := key_mem ht
    rw [hc] at hkt
    have hbase : Identified cfg { s with store := { s.store with activeId := t.id } } :=
      ⟨h.keyed, h.numbered, h.saved, (h.keyed.own _ _ hkt).1, h.turns⟩
    refine hbase.frame cfg ?_ (List.prefix_append _ _) h.turns
    exact frame_selectThread hsettled _

theorem identified_conversation {s : System} (h : Identified cfg s) (k : ℕ) (answer : Option Conversation) :
    Identified cfg (conversation k answer s) ∧ KeepsConvs s.store (conversation k answer s).store := by
  unfold conversation
  split
  · exact ⟨h, keepsConvs_refl h.keyed⟩
  · next c _ =>
    split
    · exact ⟨h, keepsConvs_refl h.keyed⟩
    · have hbase : Identified cfg { s with store := { s.store with viewOwner := c.id } } :=
        ⟨h.keyed, h.numbered, h.saved, h.active, h.turns⟩
      have hframe := frame_selectResolved (g := key) c.id c.target answer s.store
      refine hbase.frame cfg ?_ List.prefix_rfl h.turns
      dsimp only
      split
      · exact hframe.trans (.persist _)
      · exact hframe

theorem identified_historyAnswer {s : System} (h : Identified cfg s) (k : ℕ) {listing : List Listed}
    (hl : ∀ l ∈ listing, Acceptable cfg s.convs s.store l) :
    Identified cfg (historyAnswer cfg k listing s) ∧ KeepsConvs s.store (historyAnswer cfg k listing s).store := by
  unfold historyAnswer
  split
  · exact ⟨h, keepsConvs_refl h.keyed⟩
  · next c _ =>
    split
    · exact ⟨h, keepsConvs_refl h.keyed⟩
    · have hbase : Grown cfg s.convs s.store s.store :=
        ⟨h.keyed, h.numbered, rfl, fun k hk => Or.inl hk, fun k hk => hk⟩
      have hgrown := hbase.fetch c.customer hl
      refine ⟨⟨hgrown.keyed, hgrown.numbered, saved_fetchHistory h.saved cfg c.customer listing, ?_, h.turns⟩, ?_⟩
      · rw [hgrown.active]
        exact h.active
      · apply keepsConvs_of_keys h.keyed
        intro k' hk'
        exact (hgrown.old k' hk').imp_right And.left

theorem identified_step {s : System} {a : Action} (h : Identified cfg s) (hf : cfg.Fresh) (hone : a.ofOneUser = true)
    (hl : Consistent cfg s a) (hk : IdentityKept s a) :
    Identified cfg (step cfg s a) ∧ KeepsConvs s.store (step cfg s a).store := by
  have hquiet (hq : a.quiet = true) : Identified cfg (step cfg s a) ∧ KeepsConvs s.store (step cfg s a).store := by
    apply h.frame cfg _ (convs_step cfg s a) (turns_local cfg h a)
    apply frame_step cfg hq
    intro t ht hid
    left
    intro hnone
    have hkt := key_mem ht
    rw [hnone, hid] at hkt
    exact h.keyed.bare _ hkt h.active
  cases a with
  | setCustomer | userChanged | deleteAnswer => cases hone
  | createThread now => exact identified_createThread cfg h hf now
  | selectThread id =>
    obtain ⟨t, ht, rfl, hc⟩ := hk
    exact identified_selectThread cfg h ht hc
  | conversation k answer => exact identified_conversation cfg h k answer
  | historyAnswer k listing =>
    apply identified_historyAnswer cfg h k
    intro l hmem
    exact ⟨(hl l hmem).1, (hl l hmem).2, hk l hmem⟩
  | reload now => exact identified_reload cfg h now hk.1 hk.2
  | _ => exact hquiet rfl

theorem identified_init (hf : cfg.Fresh) (customer now : Text) : Identified cfg (init cfg customer ∅ now) := by
  have hempty : Keyed cfg [] [] :=
    ⟨List.nodup_nil, by simp, by simp, by simp, by simp⟩
  constructor
  · apply hempty.create hf
    intro k hk
    cases hk
  · intro k hk n hn
    have hkey : k = (threadId 1, some (cfg.genConvId 0)) := List.mem_singleton.mp hk
    rw [hkey] at hn
    rw [← threadId_injective hn]
    exact Nat.lt_succ_self 1
  · intro hne
    exact absurd rfl hne
  · exact ⟨1, rfl⟩
  · intro x hx
    cases hx

/-- What has to hold of the threads in every state: different ids, different
conversations, and a thread from the listing sends under its own id. -/
structure Stable (s : System) : Prop where
  distinct : (s.store.threads.map Thread.id).Nodup
  apart : ∀ t ∈ s.store.threads, ∀ u ∈ s.store.threads, ∀ c, Denotes t c → Denotes u c → t = u
  sends : ∀ x ∈ s.sends, ∀ t, s.turns[x.turn]? = some t → ¬ Local t.thread → x.conv = t.thread
  streams : ∀ x ∈ s.streams, ∀ t, s.turns[x.turn]? = some t → ¬ Local t.thread → x.conv = some t.thread

theorem Identified.stable {s : System} (h : Identified cfg s) (hf : cfg.Fresh) : Stable s := by
  have hlocal {n : ℕ} {t : Turn} (ht : s.turns[n]? = some t) : Local t.thread :=
    h.turns _ (List.mem_map_of_mem (List.mem_of_getElem? ht))
  constructor
  · have hnodup := h.keyed.nodup
    rwa [List.map_map] at hnodup
  · intro t ht u hu c htc huc
    exact h.keyed.denotes_unique hf ht hu htc huc
  · intro x _ t ht hnot
    exact absurd (hlocal ht) hnot
  · intro x _ t ht hnot
    exact absurd (hlocal ht) hnot

theorem identified_run {s : System} (h : Identified cfg s) (hf : cfg.Fresh) {as : List Action}
    (hone : ∀ a ∈ as, a.ofOneUser = true) (hl : (machine cfg).Along (Consistent cfg) s as)
    (hk : (machine cfg).Along IdentityKept s as) :
    (machine cfg).Along (fun s a => Stable (step cfg s a) ∧ KeepsConvs s.store (step cfg s a).store) s as := by
  induction as generalizing s with
  | nil => trivial
  | cons a as ih =>
    obtain ⟨hnext, hkeeps⟩ := identified_step cfg h hf (hone a List.mem_cons_self) hl.1 hk.1
    refine ⟨⟨hnext.stable cfg hf, hkeeps⟩, ih hnext ?_ hl.2 hk.2⟩
    intro b hb
    exact hone b (List.mem_cons_of_mem _ hb)

/-- From the first load on, and for every order of the operations of one user, the
threads keep their identities in every state of a run. -/
theorem identities_stable (hf : cfg.Fresh) (customer now : Text) (as : List Action)
    (hone : ∀ a ∈ as, a.ofOneUser = true) (hl : (machine cfg).Along (Consistent cfg) (init cfg customer ∅ now) as)
    (hk : (machine cfg).Along IdentityKept (init cfg customer ∅ now) as) :
    Stable (init cfg customer ∅ now) ∧
      (machine cfg).Along (fun s a => Stable (step cfg s a) ∧ KeepsConvs s.store (step cfg s a).store)
        (init cfg customer ∅ now) as := by
  have hinit := identified_init cfg hf customer now
  exact ⟨hinit.stable cfg hf, identified_run cfg hinit hf hone hl hk⟩

theorem not_local {id : ThreadId} (h : id.head? ≠ some 't') : ¬ Local id := by
  rintro ⟨n, rfl⟩
  exact h rfl

theorem fresh_plain : Config.plain.Fresh := by
  constructor
  · intro m n h
    have hdigits := congrArg Numbered.value (List.append_cancel_left h)
    rwa [Numbered.value_zeroPadded, Numbered.value_zeroPadded] at hdigits
  · intro m n h
    have hnot : ¬ Local (Config.plain.genConvId m) := not_local (by simp [Config.plain])
    exact hnot ⟨n, h⟩

/-- A message in the second thread, the first one selected, and a new page. -/
theorem identities_stable_reload :
    let s := (machine .plain).run (init .plain [] ∅ [])
      [.createThread [], .sendMessage "hi".toList true false [], .startHandled 0 none, .startAnswer 0,
        .selectThread (threadId 1), .reload []]
    Stable s ∧ s.store.threads.map key =
      [(threadId 2, some (Config.plain.genConvId 1)), (threadId 1, some (Config.plain.genConvId 0))] := by
  intro s
  have hrun := (identities_stable .plain fresh_plain [] []
    [.createThread [], .sendMessage "hi".toList true false [], .startHandled 0 none, .startAnswer 0,
      .selectThread (threadId 1), .reload []] (by decide) ⟨trivial, trivial, trivial, trivial, trivial, trivial, trivial⟩
      ⟨trivial, trivial, trivial, trivial, by unfold IdentityKept; decide +kernel, by unfold IdentityKept; decide +kernel,
        trivial⟩).2
  exact ⟨hrun.2.2.2.2.2.1.1, by decide +kernel⟩

/-- The listing of a list that stays in order. -/
theorem fetchHistory_of_sorted {cfg : Config} {customer : Text} {listing : List Listed} {s : Store} (hne : listing ≠ [])
    (hs : (listing.foldl (mergeListed customer) s).threads.Pairwise
      fun a b => (!cfg.later b.updatedAt a.updatedAt) = true) :
    fetchHistory cfg customer listing s = persist (listing.foldl (mergeListed customer) s) := by
  simp only [fetchHistory, if_neg hne, List.mergeSort_of_pairwise hs]

/-- The turn of the first thread has put its conversation into the listing, which becomes
a second thread for the same conversation; the thread of another device's conversation
sends its messages to a new one. -/
theorem listed_conversation_forks :
    let s := (machine .plain).run (init .plain [] ∅ "1".toList)
      [.sendMessage "hi".toList true false "1".toList, .startHandled 0 none, .startAnswer 0, .historyAsk,
        .historyAnswer 0 [⟨Config.plain.genConvId 0, []⟩]]
    let s' := (machine .plain).run (init .plain [] ∅ "1".toList)
      [.historyAsk, .historyAnswer 0 [⟨"remote".toList, []⟩], .selectThread "remote".toList, .conversation 0 none,
        .sendMessage "hi".toList true false "2".toList]
    ¬ Stable s ∧ ¬ Stable s' := by
  intro s s'
  constructor
  · intro hstable
    have hs : s.store = fetchHistory .plain [] [⟨Config.plain.genConvId 0, []⟩]
        ((machine .plain).run (init .plain [] ∅ "1".toList)
          [.sendMessage "hi".toList true false "1".toList, .startHandled 0 none, .startAnswer 0, .historyAsk]).store := rfl
    rw [fetchHistory_of_sorted (by decide) (by decide +kernel)] at hs
    have hforked : ∃ t ∈ s.store.threads, ∃ u ∈ s.store.threads, t.conversationId = some (Config.plain.genConvId 0) ∧
        u.id = Config.plain.genConvId 0 ∧ t.id ≠ u.id := by
      rw [hs]
      decide +kernel
    obtain ⟨t, ht, u, hu, hconv, hid, hne⟩ := hforked
    have hremote : ¬ Local u.id := by
      rw [hid]
      exact not_local (by decide)
    exact hne (congrArg Thread.id (hstable.apart t ht u hu _ (Or.inl hconv) (Or.inr ⟨hremote, hid⟩)))
  · intro hstable
    have hs : historyAnswer .plain 0 [⟨"remote".toList, []⟩]
          ((machine .plain).run (init .plain [] ∅ "1".toList) [.historyAsk]) =
        { init .plain [] ∅ "1".toList with
          histories := [⟨[], false⟩]
          store := persist ([⟨"remote".toList, []⟩].foldl (mergeListed []) (init .plain [] ∅ "1".toList).store) } :=
      congrArg (fun store : Store => { init .plain [] ∅ "1".toList with histories := [⟨[], false⟩], store := store })
        (fetchHistory_of_sorted (by decide) (by decide +kernel))
    have hlast : s' = (machine .plain).run (historyAnswer .plain 0 [⟨"remote".toList, []⟩]
          ((machine .plain).run (init .plain [] ∅ "1".toList) [.historyAsk]))
        [.selectThread "remote".toList, .conversation 0 none, .sendMessage "hi".toList true false "2".toList] := rfl
    rw [hs] at hlast
    have hsend := hstable.sends ⟨0, Config.plain.genConvId 1, tag "remote".toList "hi".toList, false, false, .starting⟩
      (by rw [hlast]; decide +kernel) ⟨"remote".toList, false, false⟩ (by rw [hlast]; decide +kernel)
      (not_local (by decide))
    exact absurd hsend (by decide)

end System

end AgentWorkflow.Desktop.Chat
