import AgentWorkflow.Desktop.ChatSelect

/-!
# Marks of streaming and the turns behind them

A thread is marked as streaming when it is left and unmarked when an event ends its turn
in the background; the view is set and reset by what reaches the active thread. Here is
what each operation does to the marks, to the saved ones and to the view.
-/

namespace AgentWorkflow.Desktop.Chat
open AgentWorkflow.Lib AgentWorkflow.Lib.Calendar

/-! ### Saved marks -/

/-- A thread that is saved as streaming is marked in memory too. -/
def Stored (s : Store) : Prop :=
  ∀ t ∈ savedThreads s, t.isStreaming = true → ∃ u ∈ s.threads, u.id = t.id ∧ u.isStreaming = true

/-- The marks of `s` are still there in `s'`. -/
def Marked (s s' : Store) : Prop :=
  ∀ t ∈ s.threads, t.isStreaming = true → ∃ u ∈ s'.threads, u.id = t.id ∧ u.isStreaming = true

theorem stored_persist (s : Store) : Stored (persist s) := by
  intro t ht hs
  rw [savedThreads_persist] at ht
  obtain ⟨u, hu, rfl⟩ := List.mem_map.mp ht
  exact ⟨u, List.mem_of_mem_take hu, rfl, hs⟩

theorem Stored.mono {s s' : Store} (h : Stored s) (hs : savedThreads s' = savedThreads s) (hm : Marked s s') : Stored s' := by
  intro t ht hmark
  rw [hs] at ht
  obtain ⟨u, hu, hid, hu'⟩ := h t ht hmark
  obtain ⟨v, hv, hid', hv'⟩ := hm u hu hu'
  exact ⟨v, hv, hid'.trans hid, hv'⟩

theorem Stored.frame {s s' : Store} (h : Stored s) (hf : Frame flag s s') : Stored s' := by
  have hthreads {p : ThreadId × Bool} (hp : p ∈ s.threads.map flag) : ∃ u ∈ s'.threads, u.id = p.1 ∧ u.isStreaming = p.2 := by
    rw [← hf.threads] at hp
    obtain ⟨u, hu, rfl⟩ := List.mem_map.mp hp
    exact ⟨u, hu, rfl, rfl⟩
  intro t ht hs
  have hmem : flag t ∈ (savedThreads s').map flag := List.mem_map_of_mem ht
  have hfound : ∃ u ∈ s'.threads, u.id = t.id ∧ u.isStreaming = t.isStreaming := by
    cases hf.saved with
    | inl heq =>
      rw [heq] at hmem
      obtain ⟨v, hv, hflag⟩ := List.mem_map.mp hmem
      have hmark : v.isStreaming = true := (congrArg Prod.snd hflag).trans hs
      obtain ⟨u, hu, hid, hu'⟩ := h v hv hmark
      obtain ⟨w, hw, hid', hw'⟩ := hthreads (List.mem_map_of_mem hu)
      exact ⟨w, hw, hid'.trans (hid.trans (congrArg Prod.fst hflag)), hw'.trans (hu'.trans hs.symm)⟩
    | inr heq =>
      rw [heq] at hmem
      exact hthreads (List.mem_of_mem_take hmem)
  rwa [hs] at hfound

theorem marked_updateActive {f : Thread → Thread} (hf : ∀ t, (f t).id = t.id ∧ (f t).isStreaming = true) (s : Store) :
    Marked s (updateActive f s) := by
  intro t ht hs
  unfold updateActive
  cases activeThread s with
  | none => exact ⟨t, ht, rfl, hs⟩
  | some a =>
    refine ⟨_, mem_update.mpr ⟨t, ht, rfl⟩, ?_⟩
    split
    · exact hf t
    · exact ⟨rfl, hs⟩

theorem savedThreads_updateActive (f : Thread → Thread) (s : Store) : savedThreads (updateActive f s) = savedThreads s := by
  unfold updateActive
  cases activeThread s with
  | none => rfl
  | some t => rfl

theorem stored_detachActiveStream {s : Store} (h : Stored s) : Stored (detachActiveStream s) := by
  unfold detachActiveStream
  split
  · exact h.mono (savedThreads_updateActive _ s) (marked_updateActive (by intro t; exact ⟨rfl, rfl⟩) s)
  · exact h

theorem stored_selectThread {s : Store} (h : Stored s) (id : ThreadId) (fresh : ConvId) :
    Stored (selectThread id fresh s).2 := by
  have hactive : Stored { detachActiveStream s with activeId := id } := stored_detachActiveStream h
  exact hactive.frame (frame_detach_selectThread id fresh s)

theorem loaded_flags (cfg : Config) (used : ℕ) (now : Text) {s : Store} (hne : savedThreads s ≠ []) :
    (loadPersistedThreads cfg used now s).1.map flag = (savedThreads s).map flag := by
  unfold loadPersistedThreads
  rw [if_neg hne]
  apply List.ext_getElem
  · simp
  · intro n hn hn'
    simp [flag, revived]

/-! ### What ends a turn in the view or in the background -/

/-- The chunk resets the streaming state of the active view. -/
def Chunk.endsActive (c : Chunk) : Bool :=
  (extractErrorChunk c).isSome || (!decide (c.type = .ccStatus ∧ c.label ≠ []) && c.finished)

/-- The chunk unmarks the background thread it reaches. -/
def Chunk.endsBackground (c : Chunk) : Bool :=
  c.terminal && !decide (c.type = .ccStatus) && !(decide (c.type = .messageStart) && c.ccSessionId.isSome)

/-- No mark is new in `s'`, those of `clears` are gone, and the view streams only if it
did before and is not switched `off`. -/
structure Lowered (s s' : Store) (clears : Thread → Prop) (off : Prop) : Prop where
  marks : ∀ t' ∈ s'.threads, t'.isStreaming = true → ∃ t ∈ s.threads, t.id = t'.id ∧ t.isStreaming = true ∧ ¬ clears t
  view : s'.view.streaming = true → s.view.streaming = true ∧ ¬ off
  active : s'.activeId = s.activeId

theorem Lowered.of_frame {s s' : Store} {clears : Thread → Prop} {off : Prop} (hf : Frame flag s s')
    (hc : ∀ t, ¬ clears t) (hv : s'.view.streaming = true → s.view.streaming = true ∧ ¬ off) : Lowered s s' clears off := by
  refine ⟨?_, hv, hf.activeId⟩
  intro t' ht' hs
  obtain ⟨t, ht, hid, hmark⟩ := flag_mem hf.threads ht'
  exact ⟨t, ht, hid, hmark.trans hs, hc t⟩

theorem Lowered.weaken {s s' : Store} {clears clears' : Thread → Prop} {off : Prop} (h : Lowered s s' clears off)
    (hc : ∀ t, clears' t → clears t) : Lowered s s' clears' off := by
  refine ⟨?_, h.view, h.active⟩
  intro t' ht' hs
  obtain ⟨t, ht, hid, hmark, hnot⟩ := h.marks t' ht' hs
  exact ⟨t, ht, hid, hmark, fun hclear => hnot (hc t hclear)⟩

/-- After an assignment that neither marks nor unmarks. -/
theorem Lowered.after_update {s s' : Store} (clears : ℕ → Prop) {off : Prop} {ref : ℕ} {f : Thread → Thread}
    (h : Lowered (update ref f s) s' (fun t => clears t.ref) off)
    (hf : ∀ t, (f t).ref = t.ref ∧ (f t).id = t.id ∧ (f t).isStreaming = t.isStreaming) :
    Lowered s s' (fun t => clears t.ref) off := by
  refine ⟨?_, h.view, h.active⟩
  intro t' ht' hs
  obtain ⟨u, hu, hid, hmark, hnot⟩ := h.marks t' ht' hs
  obtain ⟨t, ht, rfl⟩ := mem_update.mp hu
  by_cases heq : t.ref = ref
  · obtain ⟨href, hid', hmark'⟩ := hf t
    rw [if_pos heq] at hid hmark hnot
    rw [href] at hnot
    exact ⟨t, ht, hid'.symm.trans hid, hmark'.symm.trans hmark, hnot⟩
  · rw [if_neg heq] at hid hmark hnot
    exact ⟨t, ht, hid, hmark, hnot⟩

theorem streaming_persistBubble (conv : Option ConvId) (content : Content) (s : Store) :
    (persistBubble conv content s).view.streaming = s.view.streaming := by
  unfold persistBubble
  cases conv with
  | none => rfl
  | some c =>
    dsimp only
    split
    · rfl
    · rfl

theorem streaming_commitReply (s : Store) : (commitReply s).view.streaming = s.view.streaming :=
  streaming_persistBubble _ _ _

theorem streaming_ingestError (err : ErrorInfo) (s : Store) : (ingestError err s).view.streaming = false := by
  unfold ingestError
  dsimp only
  split
  · rfl
  · exact streaming_commitReply _

theorem streaming_ingestStatus (label : Text) (tool : Option Text) (s : Store) :
    (ingestStatus label tool s).view.streaming = s.view.streaming := by
  unfold ingestStatus
  dsimp only
  split
  · rfl
  · exact streaming_commitReply s

theorem streaming_finishActive (now : Text) (s : Store) : (finishActive now s).view.streaming = false := by
  unfold finishActive
  dsimp only
  split
  · rfl
  · rw [streaming_persistBubble, view_syncThreadMessages]

theorem streaming_ingestActive (owner : ThreadId) (chunk : Chunk) (now : Text) (s : Store) :
    (ingestActive owner chunk now s).view.streaming = (s.view.streaming && !chunk.endsActive) := by
  unfold ingestActive Chunk.endsActive
  cases extractErrorChunk chunk with
  | some err => simp [streaming_ingestError]
  | none =>
    dsimp only
    split
    · next hstatus => simp [streaming_ingestStatus, hstatus]
    · next hstatus =>
      cases hf : chunk.finished with
      | true => simp [streaming_finishActive, hstatus]
      | false => simp [view_pinSession]

/-- Where the chunk goes decides what it unmarks. -/
def clears (chunk : Chunk) (target : Target) (t : Thread) : Prop :=
  match target with
  | .background u => t.ref = u.ref ∧ chunk.endsBackground = true
  | _ => False

def silences (chunk : Chunk) (target : Target) : Prop :=
  match target with
  | .active => chunk.endsActive = true
  | _ => False

theorem view_finishBackground (t : Thread) (now : Text) (s : Store) :
    (finishBackground t now s).view.streaming = s.view.streaming := by
  unfold finishBackground
  dsimp only [persist, update]
  split
  · rfl
  · exact streaming_persistBubble _ _ s

theorem lowered_finishBackground (t : Thread) (now : Text) (s : Store) :
    Lowered s (finishBackground t now s) (fun u => u.ref = t.ref) False := by
  have hframe : Frame ident s (finishBackground t now s) := frame_finishBackground t now s
  refine ⟨?_, ?_, hframe.activeId⟩
  · intro t' ht' hs
    have hthreads : (if trim t.bgReply = [] then s else persistBubble t.bgConv (trim t.bgReply) s).threads = s.threads := by
      split
      · rfl
      · unfold persistBubble
        split
        · rfl
        · split
          · rfl
          · rfl
    obtain ⟨u, hu, rfl⟩ := mem_update.mp ht'
    rw [hthreads] at hu
    split at hs
    · cases hs
    · next hne =>
      rw [if_neg hne]
      exact ⟨u, hu, rfl, hs, hne⟩
  · intro hs
    rw [view_finishBackground] at hs
    exact ⟨hs, id⟩

theorem lowered_ingestBackground (owner : ThreadId) (chunk : Chunk) (t : Thread) (now : Text) (s : Store) :
    Lowered s (ingestBackground owner chunk t now s) (clears chunk (.background t)) False := by
  have hkeep {s' : Store} (hf : Frame flag s s') (hv : s'.view = s.view) (hends : chunk.endsBackground = false) :
      Lowered s s' (clears chunk (.background t)) False := by
    apply Lowered.of_frame hf
    · rintro u ⟨-, htrue⟩
      rw [hends] at htrue
      cases htrue
    · intro hs
      rw [hv] at hs
      exact ⟨hs, id⟩
  unfold ingestBackground
  split
  · next hstatus =>
    have hends : chunk.endsBackground = false := by simp [Chunk.endsBackground, hstatus]
    split
    · exact hkeep (.refl s) rfl hends
    · exact hkeep (.update t.ref (by intro t; rfl) s) rfl hends
  · split
    · next hstart hnew =>
      have hends : chunk.endsBackground = false := by simp [Chunk.endsBackground, hstart, hnew]
      split
      · exact hkeep (.refl s) rfl hends
      · exact hkeep ((Frame.update t.ref (by intro t; rfl) s).trans (.persist _)) rfl hends
    · have hfinish {t' : Thread} (href : t'.ref = t.ref) (s : Store) :
          Lowered s (finishBackground t' now s) (fun u => u.ref = t.ref) False := by
        rw [← href]
        exact lowered_finishBackground t' now s
      split
      · exact (hfinish rfl s).weaken fun u hu => hu.1
      · next herr =>
        let more (t : Thread) : Thread := { t with bgReply := t.bgReply ++ tag owner chunk.backgroundText }
        have hmore (u : Thread) : (more u).ref = u.ref ∧ (more u).id = u.id ∧ (more u).isStreaming = u.isStreaming :=
          ⟨rfl, rfl, rfl⟩
        dsimp only
        split
        · have hdone : Lowered s (finishBackground (more t) now (update t.ref more s)) (fun u => u.ref = t.ref) False :=
            Lowered.after_update (fun ref => ref = t.ref) (hfinish (hmore t).1 _) hmore
          exact hdone.weaken fun u hu => hu.1
        · next hfinished =>
          have hends : chunk.endsBackground = false := by
            simp only [Bool.not_eq_true, Option.isSome_eq_false_iff] at herr hfinished
            simp [Chunk.endsBackground, Chunk.terminal, herr, hfinished]
          exact hkeep (.update t.ref (by intro t; rfl) s) rfl hends

theorem lowered_ingestChunk (owner : ThreadId) (chunk : Chunk) (source : Option ℕ) (now : Text) (s : Store) :
    Lowered s (ingestChunk owner chunk source now s) (clears chunk (resolveChunkTarget chunk source s))
      (silences chunk (resolveChunkTarget chunk source s)) := by
  unfold ingestChunk
  cases resolveChunkTarget chunk source s with
  | active =>
    apply Lowered.of_frame (frame_ingestActive owner chunk now s)
    · intro t ht
      exact ht
    · intro hs
      rw [streaming_ingestActive, Bool.and_eq_true, Bool.not_eq_true'] at hs
      refine ⟨hs.1, ?_⟩
      intro hends
      rw [show chunk.endsActive = true from hends] at hs
      cases hs.2
  | background t => exact lowered_ingestBackground owner chunk t now s
  | orphan =>
    apply Lowered.of_frame (.refl s)
    · intro t ht
      exact ht
    · intro hs
      exact ⟨hs, id⟩

theorem stored_finishBackground (t : Thread) (now : Text) (s : Store) : Stored (finishBackground t now s) := by
  unfold finishBackground
  exact stored_persist _

theorem stored_ingestChunk {s : Store} (h : Stored s) (owner : ThreadId) (chunk : Chunk) (source : Option ℕ) (now : Text) :
    Stored (ingestChunk owner chunk source now s) := by
  unfold ingestChunk
  split
  · exact h.frame (frame_ingestActive owner chunk now s)
  · next t _ =>
    unfold ingestBackground
    split
    · split
      · exact h
      · exact h.frame (.update t.ref (by intro t; rfl) s)
    · split
      · split
        · exact h
        · exact stored_persist _
      · split
        · exact stored_finishBackground t now s
        · split
          · exact stored_finishBackground _ now _
          · exact h.frame (.update t.ref (by intro t; rfl) s)
  · exact h

end AgentWorkflow.Desktop.Chat
