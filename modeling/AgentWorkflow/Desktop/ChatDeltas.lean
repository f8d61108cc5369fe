import AgentWorkflow.Desktop.ChatFrames

/-!
# A reply that arrives in pieces

`_ingestChunk` shows every delta to the detector of error codes before it appends it.
As long as no piece looks like a crash report the pieces do not matter; where the cuts
fall decides what looks like one.
-/

namespace AgentWorkflow.Desktop.Chat
open AgentWorkflow.Lib AgentWorkflow.Lib.Calendar

def deltaChunk (delta : Text) : Chunk := { Chunk.empty with delta := some delta }

def doneChunk : Chunk := { Chunk.empty with done := true }

/-- The source names the session of the view, or is absent (the HTTP path). -/
def ActiveSource (source : Option ℕ) (s : Store) : Prop := source = none ∨ s.view.session = source

/-- One chunk after the other; `now` is read when the turn ends. -/
def ingestAll (owner : ThreadId) (source : Option ℕ) (now : Text) (chunks : List Chunk) (s : Store) : Store :=
  chunks.foldl (fun s c => ingestChunk owner c source now s) s

/-- A reply in deltas, and the chunk that ends it. -/
def streamReply (owner : ThreadId) (source : Option ℕ) (now : Text) (deltas : List Text) (s : Store) : Store :=
  ingestAll owner source now (deltas.map deltaChunk ++ [doneChunk]) s

variable {owner : ThreadId} {source : Option ℕ} {now : Text} {s : Store}

theorem ingestChunk_active {c : Chunk} (hc : c.conversationId = none) (hs : ActiveSource source s) :
    ingestChunk owner c source now s = ingestActive owner c now s := by
  have htarget : resolveChunkTarget c source s = .active := by
    rcases hs with rfl | hs
    · simp [resolveChunkTarget, hc]
    · cases source with
      | none => simp [resolveChunkTarget, hc]
      | some session => simp [resolveChunkTarget, hs]
  simp only [ingestChunk, htarget]

theorem extractErrorChunk_delta (delta : Text) : extractErrorChunk (deltaChunk delta) = errorCode delta := rfl

def withReply (reply : Content) (s : Store) : Store := { s with view := { s.view with reply := reply } }

theorem ingestActive_delta {delta : Text} (h : errorCode delta = none) :
    ingestActive owner (deltaChunk delta) now s = withReply (s.view.reply ++ tag owner delta) s := by
  have hpin : ∀ t : Store, pinSession (deltaChunk delta) t = t := fun t => rfl
  simp only [ingestActive, extractErrorChunk_delta, h, hpin]
  simp [deltaChunk, Chunk.empty, Chunk.text, Chunk.finished, withReply]

theorem tag_append (owner : ThreadId) (a b : Text) : tag owner (a ++ b) = tag owner a ++ tag owner b := List.map_append

/-- Deltas that are no error codes add up. -/
theorem ingestAll_deltas (owner : ThreadId) (now : Text) {deltas : List Text} (hactive : ActiveSource source s)
    (hplain : ∀ d ∈ deltas, errorCode d = none) :
    ingestAll owner source now (deltas.map deltaChunk) s = withReply (s.view.reply ++ tag owner deltas.flatten) s := by
  induction deltas generalizing s with
  | nil => simp [ingestAll, tag, withReply]
  | cons d deltas ih =>
    have hd := hplain d (by simp)
    have hstep : ingestChunk owner (deltaChunk d) source now s = withReply (s.view.reply ++ tag owner d) s := by
      rw [ingestChunk_active rfl hactive, ingestActive_delta hd]
    have hactive' : ActiveSource source (withReply (s.view.reply ++ tag owner d) s) := hactive
    have hrest := ih hactive' fun e he => hplain e (List.mem_cons_of_mem _ he)
    rw [ingestAll] at hrest
    rw [ingestAll, List.map_cons, List.foldl_cons, hstep, hrest, List.flatten_cons, tag_append]
    simp [withReply]

theorem ingestActive_done : ingestActive owner doneChunk now s = finishActive now s := by
  have hnone : extractErrorChunk doneChunk = none := rfl
  have hpin : ∀ t : Store, pinSession doneChunk t = t := fun t => rfl
  simp only [ingestActive, hnone, hpin]
  simp [doneChunk, Chunk.empty, Chunk.text, Chunk.finished, tag]

/-- The store after the reply depends on the whole text only. -/
theorem streamReply_eq (owner : ThreadId) (now : Text) {deltas : List Text} (hactive : ActiveSource source s)
    (hplain : ∀ d ∈ deltas, errorCode d = none) :
    streamReply owner source now deltas s =
      finishActive now (withReply (s.view.reply ++ tag owner deltas.flatten) s) := by
  have hactive' : ActiveSource source (withReply (s.view.reply ++ tag owner deltas.flatten) s) := hactive
  have hall := ingestAll_deltas owner now hactive hplain
  rw [ingestAll] at hall
  rw [streamReply, ingestAll, List.foldl_append, hall, List.foldl_cons, List.foldl_nil,
    ingestChunk_active rfl hactive', ingestActive_done]

@[simp] theorem view_persistBubble (conv : Option ConvId) (content : Content) (s : Store) :
    (persistBubble conv content s).view = s.view := by
  unfold persistBubble
  split
  · rfl
  · split <;> rfl

theorem finishActive_messages (h : trim s.view.reply ≠ []) :
    (finishActive now s).view.messages = s.view.messages ++ [⟨.assistant, s.view.reply⟩] := by
  simp [finishActive, h]

/-- The end of a turn leaves the error bubble and the session as they are. -/
theorem finishActive_error : (finishActive now s).view.panel.error = s.view.panel.error := by
  unfold finishActive
  dsimp only
  split
  · rfl
  · simp

theorem finishActive_session : (finishActive now s).view.session = s.view.session := by
  unfold finishActive
  dsimp only
  split
  · rfl
  · simp

theorem ingestError_view (err : ErrorInfo) :
    (ingestError err s).view.panel.error = some err ∧ (ingestError err s).view.session = s.view.session := by
  unfold ingestError
  dsimp only
  split
  · exact ⟨rfl, rfl⟩
  · simp [commitReply]

/-- A delta or the end of the turn: the session stays, and so does an error. -/
theorem ingestActive_keeps (owner : ThreadId) (now : Text) (s : Store) {c : Chunk} (hc : c = doneChunk ∨ ∃ delta, c = deltaChunk delta) :
    (ingestActive owner c now s).view.session = s.view.session ∧
      (s.view.panel.error ≠ none → (ingestActive owner c now s).view.panel.error ≠ none) := by
  rcases hc with rfl | ⟨delta, rfl⟩
  · rw [ingestActive_done]
    refine ⟨finishActive_session, fun h => ?_⟩
    rw [finishActive_error]
    exact h
  · cases herr : errorCode delta with
    | none =>
      rw [ingestActive_delta herr]
      exact ⟨rfl, id⟩
    | some err =>
      have heq : ingestActive owner (deltaChunk delta) now s = ingestError err s := by
        simp only [ingestActive, extractErrorChunk_delta, herr]
      rw [heq]
      exact ⟨(ingestError_view err).2, fun _ => by rw [(ingestError_view err).1]; simp⟩

theorem ingestAll_keeps (owner : ThreadId) (now : Text) {chunks : List Chunk} (hchunks : ∀ c ∈ chunks, c = doneChunk ∨ ∃ delta, c = deltaChunk delta)
    (hactive : ActiveSource source s) :
    ActiveSource source (ingestAll owner source now chunks s) ∧
      (s.view.panel.error ≠ none → (ingestAll owner source now chunks s).view.panel.error ≠ none) := by
  induction chunks generalizing s with
  | nil => exact ⟨hactive, id⟩
  | cons c chunks ih =>
    have hc := hchunks c (by simp)
    have hconv : c.conversationId = none := by
      rcases hc with rfl | ⟨delta, rfl⟩
      · rfl
      · rfl
    obtain ⟨hsession, herror⟩ := ingestActive_keeps owner now s hc
    rw [← ingestChunk_active hconv hactive] at hsession herror
    have hactive' : ActiveSource source (ingestChunk owner c source now s) := by
      rcases hactive with h | h
      · exact Or.inl h
      · exact Or.inr (hsession.trans h)
    have hrest := ih (fun d hd => hchunks d (List.mem_cons_of_mem _ hd)) hactive'
    exact ⟨hrest.1, fun h => hrest.2 (herror h)⟩

/-- A delta that is an error code leaves an error. -/
theorem error_of_delta {deltas : List Text} (hactive : ActiveSource source s) {d : Text} (hd : d ∈ deltas)
    (herr : errorCode d ≠ none) : (streamReply owner source now deltas s).view.panel.error ≠ none := by
  obtain ⟨pre, post, rfl⟩ := List.append_of_mem hd
  have hkinds : ∀ l : List Text, ∀ c ∈ l.map deltaChunk ++ [doneChunk], c = doneChunk ∨ ∃ delta, c = deltaChunk delta := by
    intro l c hc
    rcases List.mem_append.mp hc with hc | hc
    · obtain ⟨delta, -, rfl⟩ := List.mem_map.mp hc
      exact Or.inr ⟨delta, rfl⟩
    · exact Or.inl (List.mem_singleton.mp hc)
  obtain ⟨err, herr⟩ := Option.ne_none_iff_exists'.mp herr
  have hpre := (ingestAll_keeps owner now
    (fun c hc => hkinds pre c (List.mem_append_left _ hc)) hactive).1
  set before := ingestAll owner source now (pre.map deltaChunk) s with hbefore
  have hstep : ingestChunk owner (deltaChunk d) source now before = ingestError err before := by
    rw [ingestChunk_active rfl hpre]
    simp only [ingestActive, extractErrorChunk_delta, herr]
  have hview := ingestError_view (s := before) err
  have hactive' : ActiveSource source (ingestError err before) := by
    rcases hpre with h | h
    · exact Or.inl h
    · exact Or.inr (hview.2.trans h)
  have hpost := (ingestAll_keeps owner now (hkinds post) hactive').2 (by rw [hview.1]; simp)
  have hsplit : streamReply owner source now (pre ++ d :: post) s =
      ingestAll owner source now (post.map deltaChunk ++ [doneChunk]) (ingestError err before) := by
    rw [← hstep, hbefore]
    simp [streamReply, ingestAll, List.foldl_append]
  rw [hsplit]
  exact hpost

theorem trim_ne_nil {t : Text} (h : ∃ c ∈ t, isSpace c = false) : trim (tag owner t) ≠ [] := by
  obtain ⟨c, hc, hspace⟩ := h
  intro htrim
  have hall := (trim_eq_nil_iff _).mp htrim ⟨c, owner⟩ (List.mem_map_of_mem hc)
  rw [hspace] at hall
  cases hall

/-- A crash report as the detector is meant to find it: `E-` and 6 to 12 letters or digits. -/
def isCrashReport (delta : Text) : Bool :=
  match errorCode delta with
  | some ⟨some code, _⟩ => decide (8 ≤ code.length)
  | _ => false

/-- A reply none of whose deltas starts like an error code arrives whole, whatever the cuts;
a delta that starts with a crash report is an error. -/
theorem reply_delivered (owner : ThreadId) (source : Option ℕ) (now : Text) (deltas : List Text) (s : Store)
    (hactive : ActiveSource source s) (hreply : s.view.reply = []) (herror : s.view.panel.error = none)
    (htext : ∃ c ∈ deltas.flatten, isSpace c = false) :
    ((∀ d ∈ deltas, errorCode d = none) →
        (streamReply owner source now deltas s).view.messages =
            s.view.messages ++ [⟨.assistant, tag owner deltas.flatten⟩] ∧
          (streamReply owner source now deltas s).view.panel.error = none ∧
          ∀ others : List Text, others.flatten = deltas.flatten → (∀ d ∈ others, errorCode d = none) →
            streamReply owner source now others s = streamReply owner source now deltas s) ∧
      ((∃ d ∈ deltas, isCrashReport d = true) → (streamReply owner source now deltas s).view.panel.error ≠ none) := by
  constructor
  · intro hplain
    have heq := streamReply_eq owner now hactive hplain
    rw [hreply, List.nil_append] at heq
    refine ⟨?_, ?_, ?_⟩
    · rw [heq, finishActive_messages (trim_ne_nil htext)]
      rfl
    · rw [heq, finishActive_error]
      exact herror
    · intro others hsame hothers
      rw [heq, streamReply_eq owner now hactive hothers, hsame, hreply, List.nil_append]
  · rintro ⟨d, hd, hcrash⟩
    refine error_of_delta hactive hd ?_
    intro hnone
    rw [isCrashReport, hnone] at hcrash
    cases hcrash

/-- A store that just sent a message over HTTP. -/
def sampleStore : Store :=
  { threads := [], detached := [], nextRef := 0, activeId := [], counter := 1,
    view := ⟨none, [⟨.user, tag [] "Why?".toList⟩], [], true, none, .empty⟩, gotCcDone := false, lastSent := none,
    fallbackUsed := false, sse := some 0, customer := [], storage := ∅, appended := [], viewOwner := [] }

theorem reply_delivered_sample :
    ((∀ d ∈ ["No".toList, " memory".toList], errorCode d = none) →
        (streamReply [] none [] ["No".toList, " memory".toList] sampleStore).view.messages =
            sampleStore.view.messages ++ [⟨.assistant, tag [] ["No".toList, " memory".toList].flatten⟩] ∧
          (streamReply [] none [] ["No".toList, " memory".toList] sampleStore).view.panel.error = none ∧
          ∀ others : List Text, others.flatten = ["No".toList, " memory".toList].flatten →
            (∀ d ∈ others, errorCode d = none) →
            streamReply [] none [] others sampleStore = streamReply [] none [] ["No".toList, " memory".toList] sampleStore) ∧
      ((∃ d ∈ ["No".toList, " memory".toList], isCrashReport d = true) →
        (streamReply [] none [] ["No".toList, " memory".toList] sampleStore).view.panel.error ≠ none) :=
  reply_delivered [] none [] ["No".toList, " memory".toList] sampleStore (Or.inl rfl) rfl rfl ⟨'N', by decide, by decide⟩

/-- One text in two splits: cut after the hyphen it is delivered, in one piece it is an
error and no message. -/
theorem split_decides_delivery :
    ["E-".toList, "1234ABCD is the code".toList].flatten = ["E-1234ABCD is the code".toList].flatten ∧
      (streamReply [] none [] ["E-".toList, "1234ABCD is the code".toList] sampleStore).view.messages =
        sampleStore.view.messages ++ [⟨.assistant, tag [] "E-1234ABCD is the code".toList⟩] ∧
      (streamReply [] none [] ["E-1234ABCD is the code".toList] sampleStore).view.messages = sampleStore.view.messages ∧
      (streamReply [] none [] ["E-1234ABCD is the code".toList] sampleStore).view.panel.error =
        some ⟨some "E-1234ABCD".toList, "is the code".toList⟩ := by
  refine ⟨by decide, ?_, ?_, ?_⟩
  · decide +kernel
  · decide +kernel
  · decide +kernel

end AgentWorkflow.Desktop.Chat
