import AgentWorkflow.Desktop.ChatStreaming

/-!
# Sessions that die

The exit of a session ends the turns it served, and the last one may be sent again over
HTTP. From then on the thread must not look as if the turn still ran in the session.
-/

namespace AgentWorkflow.Desktop.Chat
open AgentWorkflow.Lib AgentWorkflow.Lib.Calendar

namespace System
variable (cfg : Config)

/-! ### Turns that end stay ended -/

/-- No turn is opened again. -/
structure Closing (ts ts' : List Turn) : Prop where
  length : ts.length ≤ ts'.length
  ended : ∀ n t', n < ts.length → ts'[n]? = some t' → t'.ended = false → ∃ t, ts[n]? = some t ∧ t.ended = false

theorem Closing.refl (ts : List Turn) : Closing ts ts := ⟨le_rfl, fun _ t' _ h he => ⟨t', h, he⟩⟩

theorem Closing.of_eq {ts ts' : List Turn} (h : ts' = ts) : Closing ts ts' := by
  rw [h]
  exact .refl ts

theorem Closing.trans {a b c : List Turn} (h : Closing a b) (h' : Closing b c) : Closing a c := by
  refine ⟨h.length.trans h'.length, ?_⟩
  intro n t' hn ht he
  obtain ⟨t, ht', he'⟩ := h'.ended n t' (lt_of_lt_of_le hn h.length) ht he
  exact h.ended n t hn ht' he'

theorem closing_append (ts us : List Turn) : Closing ts (ts ++ us) := by
  refine ⟨by simp, ?_⟩
  intro n t' hn ht he
  rw [List.getElem?_append_left hn] at ht
  exact ⟨t', ht, he⟩

/-- Each turn is as it was, or ended. -/
theorem closing_mapIdx {f : ℕ → Turn → Turn} (hf : ∀ n t, f n t = t ∨ (f n t).ended = true) (ts : List Turn) :
    Closing ts (ts.mapIdx f) := by
  refine ⟨by simp, ?_⟩
  intro n t' hn ht he
  rw [List.getElem?_mapIdx] at ht
  obtain ⟨t, hget, rfl⟩ := Option.map_eq_some_iff.mp ht
  cases hf n t with
  | inl heq => exact ⟨t, hget, by rwa [heq] at he⟩
  | inr hended =>
    rw [hended] at he
    cases he

theorem closing_endTurn (n : ℕ) (s : System) : Closing s.turns (endTurn n s).turns := by
  refine ⟨by simp [endTurn], ?_⟩
  intro m t' _ ht he
  have hget : (s.turns.modify n fun t => { t with ended := true })[m]? = some t' := ht
  rw [List.getElem?_modify] at hget
  obtain ⟨t, htm, rfl⟩ := Option.map_eq_some_iff.mp hget
  split at he
  · cases he
  · exact ⟨t, htm, he⟩

theorem closing_endIf (ends : Bool) (n : ℕ) (s : System) : Closing s.turns (endIf ends n s).turns := by
  unfold endIf
  split
  · exact closing_endTurn n s
  · exact .refl _

theorem closing_crashTurns (ns : List ℕ) (s : System) : Closing s.turns (crashTurns ns s).turns := by
  apply closing_mapIdx
  intro n t
  split
  · exact Or.inr rfl
  · exact Or.inl rfl

theorem closing_endTurnsOf (id : ThreadId) (s : System) : Closing s.turns (endTurnsOf id s).turns := by
  refine ⟨by simp [endTurnsOf], ?_⟩
  intro n t' _ ht he
  have hget : (s.turns.map fun t => if t.thread = id then { t with ended := true } else t)[n]? = some t' := ht
  rw [List.getElem?_map] at hget
  obtain ⟨t, htn, rfl⟩ := Option.map_eq_some_iff.mp hget
  split at he
  · cases he
  · exact ⟨t, htn, he⟩

theorem closing_dispatchFailed (k : ℕ) (c : Send) (thrown : Bool) (error : Text) (s : System) :
    Closing s.turns (dispatchFailed cfg k c thrown error s).turns := by
  unfold dispatchFailed
  dsimp only
  split
  · exact closing_endTurn c.turn { s with sends := s.sends.set k { c with pc := .finished } }
  · exact .refl _

/-! ### The HTTP stream of a turn -/

/-- A stream carries the turn, or has handed it back to the local agent. -/
def Fallback (n : ℕ) (s : System) : Prop := ∃ x ∈ s.streams, x.turn = n ∧ (x.closed = false ∨ x.switched = true)

/-- While the turn is open, a stream carries it. -/
structure Pursued (n : ℕ) (s : System) : Prop where
  bound : n < s.turns.length
  carried : ∀ t, s.turns[n]? = some t → t.ended = false → Fallback n s

def Ended (n : ℕ) (s : System) : Prop := ∀ t, s.turns[n]? = some t → t.ended = true

theorem Pursued.next {n : ℕ} {s s' : System} (h : Pursued n s) (ht : Closing s.turns s'.turns)
    (hf : Ended n s ∨ (Fallback n s → Fallback n s')) : Pursued n s' := by
  refine ⟨lt_of_lt_of_le h.bound ht.length, ?_⟩
  intro t' ht' he
  obtain ⟨t, htn, he'⟩ := ht.ended n t' h.bound ht' he
  cases hf with
  | inl hended =>
    rw [hended t htn] at he'
    cases he'
  | inr hf => exact hf (h.carried t htn he')

theorem Fallback.append {n : ℕ} {s s' : System} (h : Fallback n s) {xs : List Stream} (hs : s'.streams = s.streams ++ xs) :
    Fallback n s' := by
  obtain ⟨x, hx, hfound⟩ := h
  refine ⟨x, ?_, hfound⟩
  rw [hs]
  exact List.mem_append_left _ hx

theorem Fallback.set {n j : ℕ} {s s' : System} (h : Fallback n s) {x x' : Stream} (hx : s.streams[j]? = some x)
    (hs : s'.streams = s.streams.set j x')
    (hkeep : x.turn = n → x.closed = false ∨ x.switched = true → x'.turn = n ∧ (x'.closed = false ∨ x'.switched = true)) :
    Fallback n s' := by
  obtain ⟨y, hy, hturn, hopen⟩ := h
  obtain ⟨m, hm⟩ := List.mem_iff_getElem?.mp hy
  unfold Fallback
  rw [hs]
  by_cases heq : m = j
  · subst heq
    rw [hx] at hm
    rw [← Option.some.inj hm] at hturn hopen
    refine ⟨x', List.mem_of_getElem? (i := m) ?_, hkeep hturn hopen⟩
    rw [List.getElem?_set_self (List.getElem?_eq_some_iff.mp hx).1]
  · refine ⟨y, List.mem_of_getElem? (i := m) ?_, hturn, hopen⟩
    rw [List.getElem?_set_ne (Ne.symm heq)]
    exact hm

/-- Closing the stream `j` breaks off no turn `n`. -/
def Spares (n : ℕ) (j : Option ℕ) (s : System) : Prop :=
  ∀ i x, j = some i → s.streams[i]? = some x → x.turn = n → x.switched = true

theorem fallback_closeStream {n : ℕ} {j : Option ℕ} {s : System} (h : Fallback n s) (hs : Spares n j s) :
    Fallback n (closeStream j s) := by
  cases j with
  | none => exact h
  | some j =>
    cases hx : s.streams[j]? with
    | none =>
      have hsame : (closeStream (some j) s).streams = s.streams := by
        show s.streams.modify j _ = s.streams
        rw [List.modify_eq_self (List.getElem?_eq_none_iff.mp hx)]
      obtain ⟨y, hy, hfound⟩ := h
      exact ⟨y, hsame ▸ hy, hfound⟩
    | some x =>
      have hset : (closeStream (some j) s).streams = s.streams.set j { x with closed := true } := by
        show s.streams.modify j _ = _
        rw [List.modify_eq_set_getElem?, hx]
        rfl
      apply h.set hx hset
      intro hturn _
      exact ⟨hturn, Or.inr (hs j x rfl hx hturn)⟩

/-- The steps that do not break off the stream of a turn that is still open. -/
def Unbroken (n : ℕ) (s : System) : Action → Prop
  | .sendMessage _ _ _ _ => s.store.view.streaming = false → Ended n s ∨ Spares n s.store.sse s
  | .stopStreaming => (s.turns[n]?).map Turn.thread = some s.store.activeId ∨ Ended n s ∨ Spares n s.store.sse s
  | .line j chunk _ _ =>
    ∀ x, s.streams[j]? = some x → chunk.type = .modeSwitch ∧ chunk.toLocalCc →
      Ended n s ∨ Spares n s.store.sse { s with streams := s.streams.set j { x with switched := true } }
  | .reload _ => Ended n s
  | _ => True

theorem closing_sendMessage (content : Text) (route lab : Bool) (now : Text) (s : System) :
    Closing s.turns (sendMessage cfg content route lab now s).turns := by
  unfold sendMessage
  split
  · exact .refl _
  · have hopened : Closing s.turns (closeStream s.store.sse { s with
        turns := s.turns ++ [⟨s.store.activeId, false, false⟩]
        store := beginTurn content now s.store }).turns := by
      rw [turns_closeStream]
      exact closing_append _ _
    dsimp only
    split
    · apply hopened.trans
      unfold sendViaLocalCc
      dsimp only
      split
      · split
        · exact closing_endTurn _ _
        · exact .refl _
      · exact .refl _
    · exact hopened

theorem pursued_sendMessage {n : ℕ} {s : System} (h : Pursued n s) (content : Text) (route lab : Bool) (now : Text)
    (hk : s.store.view.streaming = false → Ended n s ∨ Spares n s.store.sse s) :
    Pursued n (sendMessage cfg content route lab now s) := by
  apply h.next (closing_sendMessage cfg content route lab now s)
  by_cases hs : s.store.view.streaming = true
  · right
    intro hf
    unfold sendMessage
    rw [if_pos hs]
    exact hf
  · apply (hk (by simpa using hs)).imp_right
    intro hspares hf
    have hclosed : Fallback n (closeStream s.store.sse { s with
        turns := s.turns ++ [⟨s.store.activeId, false, false⟩]
        store := beginTurn content now s.store }) :=
      fallback_closeStream hf hspares
    unfold sendMessage
    rw [if_neg hs]
    dsimp only
    split
    · unfold sendViaLocalCc
      dsimp only
      split
      · split
        · exact hclosed
        · exact hclosed.append rfl
      · exact hclosed
    · exact hclosed.append rfl

theorem pursued_dispatchFailed {n : ℕ} {s : System} (h : Pursued n s) (k : ℕ) (c : Send) (thrown : Bool) (error : Text) :
    Pursued n (dispatchFailed cfg k c thrown error s) := by
  apply h.next (closing_dispatchFailed cfg k c thrown error s)
  right
  intro hf
  unfold dispatchFailed
  dsimp only
  split
  · exact hf
  · exact hf.append rfl

theorem pursued_exit {n : ℕ} {s : System} {i : ℕ} {x : Session} (hbound : n < s.turns.length)
    (h : n ∈ x.turn :: x.earlier ∨ Pursued n s) (hx : s.sessions[i]? = some x) (halive : ¬ (x.alive ∨ x.exited))
    (code : Text) (error : Option Text) (route : Bool) (now : Text) :
    Pursued n (exit cfg i code error route now s) := by
  have hexited : Pursued n (exited i x s) := by
    have hclosing : Closing s.turns (exited i x s).turns := closing_crashTurns _ _
    cases h with
    | inr h => exact h.next hclosing (Or.inr fun hf => hf)
    | inl hmem =>
      refine ⟨lt_of_lt_of_le hbound hclosing.length, ?_⟩
      intro t' ht he
      have hget : (s.turns.mapIdx fun m t =>
          if m ∈ x.turn :: x.earlier ∧ t.ended = false then { t with ended := true, crashed := true } else t)[n]? = some t' := ht
      rw [List.getElem?_mapIdx] at hget
      obtain ⟨t, -, rfl⟩ := Option.map_eq_some_iff.mp hget
      split at he
      · cases he
      · next hnot => exact absurd ⟨hmem, he⟩ hnot
  rw [exit_eq cfg hx halive]
  split
  · split
    · refine ⟨?_, ?_⟩
      · show n < ((exited i x s).turns.modify x.turn _).length
        rw [List.length_modify]
        exact hexited.bound
      · intro t ht he
        by_cases heq : x.turn = n
        · exact ⟨⟨x.turn, _, _, false, false, false⟩, List.mem_append_right _ (List.mem_singleton_self _), heq, Or.inl rfl⟩
        · have hget : ((exited i x s).turns.modify x.turn fun t => { t with ended := false })[n]? = some t := ht
          rw [List.getElem?_modify] at hget
          obtain ⟨u, hu, rfl⟩ := Option.map_eq_some_iff.mp hget
          rw [if_neg heq] at he
          exact (hexited.carried u hu he).append rfl
    · exact hexited.next (.refl _) (Or.inr fun hf => hf)
  · split
    · exact hexited.next (.refl _) (Or.inr fun hf => hf)
    · exact hexited

/-- A chunk that ends turn `m` or none. -/
theorem pursued_endIf {n : ℕ} {s : System} (h : Pursued n s) (ends : Bool) (m : ℕ) {store : Store}
    (ht : Closing s.turns (endIf ends m s).turns) : Pursued n { endIf ends m s with store := store } := by
  refine h.next ht (Or.inr ?_)
  rintro ⟨y, hy, hfound⟩
  refine ⟨y, ?_, hfound⟩
  show y ∈ (endIf ends m s).streams
  unfold endIf
  split
  · exact hy
  · exact hy

theorem pursued_line {n : ℕ} {s : System} (h : Pursued n s) (j : ℕ) (chunk : Chunk) (bridge : Bool) (now : Text)
    (hk : Unbroken n s (.line j chunk bridge now)) : Pursued n (line j chunk bridge now s) := by
  unfold line
  split
  · exact h
  · next x hx =>
    split
    · exact h
    · split
      · next hswitch =>
        have hturns := turns_closeStream s.store.sse { s with streams := s.streams.set j { x with switched := true } }
        have hclosing : Closing s.turns
            (closeStream s.store.sse { s with streams := s.streams.set j { x with switched := true } }).turns :=
          .of_eq hturns
        have hmarked : Fallback n s → Fallback n { s with streams := s.streams.set j { x with switched := true } } := by
          intro hf
          apply hf.set hx rfl
          intro hturn _
          exact ⟨hturn, Or.inr rfl⟩
        have hclosed := h.next hclosing
          ((hk x hx hswitch).imp_right fun hspares hf => fallback_closeStream (hmarked hf) hspares)
        unfold startLocalCcTurn
        cases bridge with
        | true => exact hclosed.next (.refl _) (Or.inr fun hf => hf)
        | false => exact hclosed.next (closing_endTurn x.turn _) (Or.inr fun hf => hf)
      · exact pursued_endIf h chunk.terminal x.turn (closing_endIf _ _ s)

theorem pursued_httpError {n : ℕ} {s : System} (h : Pursued n s) (j : ℕ) (message : Text) :
    Pursued n (httpError j message s) := by
  unfold httpError
  split
  · exact h
  · next x hx =>
    split
    · exact h
    · have hclosing := closing_endTurn x.turn { s with streams := s.streams.set j { x with closed := true } }
      by_cases heq : x.turn = n
      · refine ⟨lt_of_lt_of_le h.bound hclosing.length, ?_⟩
        intro t ht he
        have hget : (s.turns.modify x.turn fun t => { t with ended := true })[n]? = some t := ht
        rw [← heq, List.getElem?_modify_eq] at hget
        obtain ⟨u, -, rfl⟩ := Option.map_eq_some_iff.mp hget
        cases he
      · refine h.next hclosing (Or.inr ?_)
        intro hf
        apply hf.set hx rfl
        intro hturn _
        exact absurd hturn heq

theorem pursued_stopStreaming {n : ℕ} {s : System} (h : Pursued n s) (hk : Unbroken n s .stopStreaming) :
    Pursued n (stopStreaming s) := by
  have hturns := turns_closeStream s.store.sse s
  have hclosing : Closing s.turns (stopStreaming s).turns := by
    have hend := closing_endTurnsOf (closeStream s.store.sse s).store.activeId (closeStream s.store.sse s)
    rw [hturns] at hend
    exact hend
  cases hk with
  | inl hown =>
    refine ⟨lt_of_lt_of_le h.bound hclosing.length, ?_⟩
    intro t ht he
    have hget : ((closeStream s.store.sse s).turns.map fun t =>
        if t.thread = (closeStream s.store.sse s).store.activeId then { t with ended := true } else t)[n]? = some t := ht
    rw [hturns, frame_closeStream, List.getElem?_map] at hget
    obtain ⟨u, hu, rfl⟩ := Option.map_eq_some_iff.mp hget
    rw [hu] at hown
    rw [if_pos (Option.some.inj hown)] at he
    cases he
  | inr hk =>
    apply h.next hclosing
    exact hk.imp_right fun hspares hf => fallback_closeStream hf hspares

theorem pursued_step {n : ℕ} {s : System} (h : Pursued n s) {a : Action} (ha : a.streams = true)
    (hk : Unbroken n s a) : Pursued n (step cfg s a) := by
  have hkeep {s' : System} (ht : s'.turns = s.turns) (hs : s'.streams = s.streams) : Pursued n s' := by
    apply h.next (.of_eq ht)
    right
    rintro ⟨y, hy, hfound⟩
    exact ⟨y, hs ▸ hy, hfound⟩
  cases a with
  | historyAnswer | deleteAnswer | setCustomer | userChanged => cases ha
  | createThread now => exact hkeep rfl rfl
  | selectThread id =>
    unfold step selectThread
    dsimp only
    split
    · exact h
    · exact hkeep rfl rfl
  | conversation k answer =>
    unfold step conversation
    dsimp only
    split
    · exact h
    · split
      · exact h
      · exact hkeep rfl rfl
  | sendMessage content route lab now => exact pursued_sendMessage cfg h content route lab now hk
  | startHandled k refusal =>
    have hboth : (startHandled k refusal s).turns = s.turns ∧ (startHandled k refusal s).streams = s.streams := by
      unfold startHandled
      repeat' split
      all_goals exact ⟨rfl, rfl⟩
    exact hkeep hboth.1 hboth.2
  | startAnswer k =>
    unfold step startAnswer
    dsimp only
    split
    · exact h
    · split
      · exact hkeep rfl rfl
      · exact pursued_dispatchFailed cfg h ..
      · exact h
  | startThrows k error =>
    unfold step startThrows
    dsimp only
    split
    · exact h
    · split
      · exact h
      · exact h
      · exact pursued_dispatchFailed cfg h ..
  | sendAnswer k thrown =>
    unfold step sendAnswer
    dsimp only
    split
    · exact h
    · split
      · exact h
      · cases thrown with
        | some error => exact pursued_dispatchFailed cfg h ..
        | none => exact hkeep rfl rfl
  | die i => exact hkeep rfl rfl
  | event i m chunk now =>
    unfold step event
    dsimp only
    split
    · exact h
    · split
      · exact h
      · exact pursued_endIf h chunk.terminal m (closing_endIf _ _ s)
  | exit i code error route now =>
    cases hx : s.sessions[i]? with
    | none =>
      unfold step exit
      dsimp only
      rw [hx]
      exact h
    | some x =>
      by_cases halive : x.alive ∨ x.exited
      · unfold step exit
        dsimp only
        rw [hx]
        dsimp only
        rw [if_pos halive]
        exact h
      · exact pursued_exit cfg h.bound (Or.inr h) hx halive code error route now
  | headers j named =>
    unfold step headers
    dsimp only
    split
    · exact h
    · next x hx =>
      split
      · exact h
      · refine h.next (.refl _) (Or.inr ?_)
        intro hf
        apply hf.set hx rfl
        intro hturn hopen
        exact ⟨hturn, hopen⟩
  | line j chunk bridge now => exact pursued_line h j chunk bridge now hk
  | httpError j message => exact pursued_httpError h j message
  | stopStreaming => exact pursued_stopStreaming h hk
  | historyAsk => exact hkeep rfl rfl
  | deleteThread id =>
    unfold step deleteThread
    dsimp only
    split
    · exact h
    · exact hkeep rfl rfl
  | reload now => exact h.next (.refl _) (Or.inl hk)

theorem pursued_run {n : ℕ} {s : System} (h : Pursued n s) {as : List Action} (has : ∀ a ∈ as, a.streams = true)
    (hk : (machine cfg).Along (Unbroken n) s as) : Pursued n ((machine cfg).run s as) := by
  induction as generalizing s with
  | nil => exact h
  | cons a as ih =>
    apply ih (pursued_step cfg h (has a List.mem_cons_self) hk.1)
    · intro b hb
      exact has b (List.mem_cons_of_mem _ hb)
    · exact hk.2

/-! ### The exit -/

/-- The thread is shown or marked as streaming. -/
def Streams (id : ThreadId) (s : System) : Prop :=
  (s.store.activeId = id ∧ s.store.view.streaming = true) ∨ ∃ t ∈ s.store.threads, t.id = id ∧ t.isStreaming = true

/-- The step from `s` to `s'` has sent turn `m` again over HTTP or reported the error. -/
def Handled (m : ℕ) (message : Text) (s s' : System) : Prop :=
  (∃ x, s'.streams = s.streams ++ [x] ∧ x.turn = m ∧ x.closed = false) ∨
    s'.store.view.panel.error = some ⟨none, message⟩

theorem handled_exit {s : System} {i : ℕ} {x : Session} (hx : s.sessions[i]? = some x) (halive : ¬ (x.alive ∨ x.exited))
    (hview : s.store.view.session = some i) (hdone : s.store.gotCcDone = false) (code : Text) (error : Option Text)
    (route : Bool) (now : Text) : Handled x.turn (exitText code error) s (exit cfg i code error route now s) := by
  rw [exit_eq cfg hx halive, if_pos hview]
  split
  · exact Or.inl ⟨_, rfl, rfl, rfl⟩
  · right
    show (if s.store.gotCcDone = true then s.store.view.panel.error else some ⟨none, exitText code error⟩) = _
    rw [hdone, if_neg Bool.false_ne_true]

end System

end AgentWorkflow.Desktop.Chat
