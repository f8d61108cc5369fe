import AgentWorkflow.Desktop.SseHandle

/-!
# A stream that reconnects

`createReconnectingSSE`: the attempt counter, its two timers and the handle that each
reconnect replaces, together with the streams under it.
-/

namespace AgentWorkflow.Desktop.Sse
open AgentWorkflow.Lib AgentWorkflow.Lib.PyStr

/-- A call of one of the caller's callbacks. -/
inductive Notice
  | message (line : ℕ) (again : Bool) (data : Message)
  | headers
  | reconnected
  | reconnecting (attempt : ℕ)
  | error (err : Text)
  | stalled

/-- What happened: a callback with whether `close` had been called before, an error of
the stream, a reconnect that was scheduled, a reconnect. -/
inductive Entry
  | call (n : Notice) (late : Bool)
  | failed
  | scheduled (delay : ℕ)
  | reconnect

/-- The variables of `createReconnectingSSE`; `former` are the handles that were replaced. -/
structure Reconnecting where
  attempt : ℕ
  closed : Bool
  currentHandle : Handle
  former : List Handle
  stalledTimer : Bool
  reconnectTimer : Option ℕ
  log : List Entry

inductive Outcome
  | current (e : Event)
  | former (k : ℕ) (e : Event)
  | stalledTimeout
  | reconnectTimeout
  | close

def reconnectDelay (attempt : ℕ) : ℕ := min (1000 * 2 ^ (attempt - 1)) 8000

namespace Reconnecting

def start : Reconnecting := ⟨0, false, .opened, [], false, none, []⟩

def close (s : Reconnecting) : Reconnecting :=
  { s with closed := true, stalledTimer := false, reconnectTimer := none, currentHandle := s.currentHandle.close }

def note (e : Entry) (s : Reconnecting) : Reconnecting := { s with log := s.log ++ [e] }

def connect (s : Reconnecting) : Reconnecting :=
  if s.closed then s
  else note .reconnect { s with former := s.former ++ [s.currentHandle], currentHandle := .opened }

variable (maxRetries : ℕ) (user : Notice → Behaviour)

def call (n : Notice) (s : Reconnecting) : Reconnecting :=
  let s' := note (.call n s.closed) s
  if (user n).closes then s'.close else s'

def onHeaders (s : Reconnecting) : Reconnecting :=
  if 0 < s.attempt then
    let s' := call user .reconnected s
    if (user .reconnected).throws.isSome then s' else call user .headers { s' with stalledTimer := true }
  else call user .headers { s with stalledTimer := true }

def onError (err : Text) (s : Reconnecting) : Reconnecting :=
  if s.closed then s
  else
    let s := note .failed { s with stalledTimer := false }
    if s.attempt < maxRetries then
      let attempt := s.attempt + 1
      let s := call user (.reconnecting attempt) { s with attempt := attempt }
      if (user (.reconnecting attempt)).throws.isSome then s
      else note (.scheduled (reconnectDelay attempt)) { s with reconnectTimer := some (reconnectDelay attempt) }
    else call user (.error err) s

/-- The callbacks that `connect` passes on. -/
def react (s : Reconnecting) : Call → Reconnecting
  | .message n again data => call user (.message n again data) { s with attempt := 0, stalledTimer := true }
  | .headers => onHeaders user s
  | .error err => onError maxRetries user err s

/-- What the stream sees of these callbacks. A callback for an error is the last thing
that its stream does. -/
def handler (attempt : ℕ) : Handler
  | .message n again data => user (.message n again data)
  | .headers =>
    if 0 < attempt then
      if (user .reconnected).throws.isSome then user .reconnected
      else ⟨(user .reconnected).closes || (user .headers).closes, (user .headers).throws⟩
    else user .headers
  | .error _ => ⟨false, none⟩

/-- A step of the stream; only `close` has the handle to close it. -/
def advance (x : Handle) (s : Reconnecting) : Event → Handle × List Made
  | .close => (x, [])
  | e => x.step (handler user s.attempt) e

def reactAll (made : List Made) (s : Reconnecting) : Reconnecting :=
  made.foldl (fun s m => react maxRetries user s m.call) s

def step (s : Reconnecting) : Outcome → Reconnecting
  | .current e =>
    let out := advance user s.currentHandle s e
    reactAll maxRetries user out.2 { s with currentHandle := out.1 }
  | .former k e =>
    match s.former[k]? with
    | none => s
    | some x =>
      let out := advance user x s e
      reactAll maxRetries user out.2 { s with former := s.former.set k out.1 }
  | .stalledTimeout =>
    if s.stalledTimer then
      let s := { s with stalledTimer := false }
      if s.closed then s else call user .stalled s
    else s
  | .reconnectTimeout => if s.reconnectTimer.isSome then connect { s with reconnectTimer := none } else s
  | .close => s.close

/-- With each step comes what the callbacks do in it. -/
def machine : Machine Reconnecting (Outcome × (Notice → Behaviour)) Unit :=
  ⟨fun s o => (step maxRetries o.2 s o.1, ())⟩

end Reconnecting

/-! ### The steps of a stream -/

/-- Each call knows whether one before it closed the stream, which is closed at last as `c'` says. -/
def Chain (h : Handler) : Bool → List Made → Bool → Prop
  | c, [], c' => c' = c
  | c, m :: ms, c' => m.late = c ∧ Chain h (c || (h m.call).closes) ms c'

theorem Chain.append {h : Handler} {c c' c'' : Bool} {xs ys : List Made} (hx : Chain h c xs c') (hy : Chain h c' ys c'') :
    Chain h c (xs ++ ys) c'' := by
  induction xs generalizing c with
  | nil =>
    rw [show c' = c from hx] at hy
    exact hy
  | cons m xs ih => exact ⟨hx.1, ih hx.2⟩

/-- The timers of a stream that is over are off. -/
def Handle.Rested (x : Handle) : Prop := x.phase = .ended ∨ x.closed = true → x.handshakeTimer = false ∧ x.idleTimer = false

/-- The first call that closes the stream is the last one of the chunk. -/
def Ceases (h : Handler) : ℕ → List Text → Prop
  | _, [] => True
  | n, raw :: raws =>
    let first := h (.message n false (message raw))
    let second := h (.message n true (.text raw))
    let again := first.throws.isSome && (message raw).isJson
    (again = true → first.closes = false) ∧
      ((if again then second.throws else first.throws).isSome = false →
        if first.closes || (again && second.closes) then raws = [] else Ceases h (n + 1) raws)

instance Ceases.decidable (h : Handler) : (n : ℕ) → (raws : List Text) → Decidable (Ceases h n raws)
  | _, [] => inferInstanceAs (Decidable True)
  | n, _ :: raws => by
    have := Ceases.decidable h (n + 1) raws
    unfold Ceases
    infer_instance

/-- The calls for data lines. -/
def AllMessages (made : List Made) : Prop := ∀ m ∈ made, ∃ n again data, m.call = .message n again data

namespace Handle
variable {h : Handler}

theorem rested_opened : opened.Rested := fun hover => by
  rcases hover with hover | hover <;> cases hover

theorem rested_close (x : Handle) : x.close.Rested := fun _ => ⟨rfl, rfl⟩

theorem rested_finish (x : Handle) : x.finish.Rested := fun _ => ⟨rfl, rfl⟩

theorem rested_loop {x : Handle} (hphase : x.phase ≠ .ended) : (loop x).Rested := by
  unfold loop
  split
  · exact rested_finish x
  next hc => exact fun hover => absurd hover (not_or.mpr ⟨hphase, hc⟩)

theorem rested_fail (err : Thrown) (x : Handle) : (fail h err x).1.Rested := by
  unfold fail
  split <;> exact rested_finish _

theorem ended_fail (err : Thrown) (x : Handle) : (fail h err x).1.phase = .ended := by
  unfold fail
  split <;> rfl

@[simp] theorem phase_after (c : Call) (x : Handle) : (after h c x).phase = x.phase := by
  unfold after
  split <;> rfl

theorem phase_deliver (raw : Text) (x : Handle) : (deliver h raw x).1.phase = x.phase := by
  unfold deliver
  dsimp only
  split <;> simp

theorem phase_deliverAll (raws : List Text) (x : Handle) : (deliverAll h raws x).1.phase = x.phase := by
  induction raws generalizing x with
  | nil => rfl
  | cons raw raws ih =>
    have hfirst := phase_deliver (h := h) raw x
    unfold deliverAll
    rcases hd : deliver h raw x with ⟨x', made, _ | err⟩ <;> rw [hd] at hfirst
    · exact (ih x').trans hfirst
    · exact hfirst

theorem rested_step (x : Handle) (hx : x.Rested) (e : Event) : (step h x e).1.Rested := by
  cases e with
  | response res =>
    unfold step
    dsimp only
    split
    · unfold readHeaders
      dsimp only
      split
      · exact rested_fail _ _
      · split
        · exact rested_fail _ _
        · exact rested_loop (by simp)
    · exact hx
  | chunk value =>
    unfold step
    dsimp only
    split
    next hphase =>
      unfold readChunk
      dsimp only
      split
      · exact rested_fail _ _
      · split
        next x' made hd =>
          have hsame := phase_deliverAll (h := h) (dataOf (x.reader.buffer ++ (x.reader.decoder.decode value).1)) { x with
            idleTimer := true
            reader := ⟨(x.reader.decoder.decode value).2, JsText.remainder newline (x.reader.buffer ++ (x.reader.decoder.decode value).1)⟩ }
          rw [hd] at hsame
          exact rested_loop (by rw [hsame, hphase]; decide)
        · exact rested_fail _ _
    · exact hx
  | rejected err =>
    unfold step
    dsimp only
    split
    · exact hx
    · exact rested_fail _ _
  | endOfBody =>
    unfold step
    dsimp only
    split
    · exact rested_finish x
    · exact hx
  | handshakeTimeout =>
    unfold step
    dsimp only
    split
    · exact fun hover => ⟨rfl, (hx hover).2⟩
    · exact hx
  | idleTimeout =>
    unfold step
    dsimp only
    split
    · exact fun hover => ⟨(hx hover).1, rfl⟩
    · exact hx
  | close => exact rested_close x

/-- Nothing happens to a stream that is over. -/
theorem step_ended {x : Handle} (hphase : x.phase = .ended) (hx : x.Rested) {e : Event} (he : e ≠ .close) :
    step h x e = (x, []) := by
  obtain ⟨hhandshake, hidle⟩ := hx (Or.inl hphase)
  cases e with
  | close => exact absurd rfl he
  | response | chunk | rejected | endOfBody => simp [step, hphase]
  | handshakeTimeout => simp [step, hhandshake]
  | idleTimeout => simp [step, hidle]

theorem chain_deliver (raw : Text) (x : Handle) :
    Chain h x.closed (deliver h raw x).2.1 (deliver h raw x).1.closed ∧ AllMessages (deliver h raw x).2.1 := by
  unfold deliver
  dsimp only
  split
  · refine ⟨⟨rfl, by simp, by simp [Chain]⟩, ?_⟩
    intro m hm
    rcases List.mem_cons.mp hm with rfl | hm
    · exact ⟨_, _, _, rfl⟩
    · exact ⟨_, _, _, by rw [List.mem_singleton.mp hm]⟩
  · refine ⟨⟨rfl, by simp [Chain]⟩, ?_⟩
    intro m hm
    exact ⟨_, _, _, by rw [List.mem_singleton.mp hm]⟩

theorem chain_deliverAll (raws : List Text) (x : Handle) :
    Chain h x.closed (deliverAll h raws x).2.1 (deliverAll h raws x).1.closed ∧ AllMessages (deliverAll h raws x).2.1 := by
  induction raws generalizing x with
  | nil => exact ⟨rfl, fun m hm => nomatch hm⟩
  | cons raw raws ih =>
    obtain ⟨hfirst, hdata⟩ := chain_deliver (h := h) raw x
    obtain ⟨hrest, hdata'⟩ := ih (deliver h raw x).1
    unfold deliverAll
    rcases hd : deliver h raw x with ⟨x', made, _ | err⟩ <;> rw [hd] at hfirst hdata hrest hdata'
    · refine ⟨hfirst.append hrest, ?_⟩
      intro m hm
      rcases List.mem_append.mp hm with hm | hm
      · exact hdata m hm
      · exact hdata' m hm
    · exact ⟨hfirst, hdata⟩

theorem late_deliverAll {x : Handle} (hx : x.closed = false) (raws : List Text) (hraws : Ceases h x.line raws) :
    ∀ m ∈ (deliverAll h raws x).2.1, m.late = false := by
  induction raws generalizing x with
  | nil => exact fun m hm => nomatch hm
  | cons raw raws ih =>
    obtain ⟨hagain, hrest⟩ := hraws
    have hline := line_deliver (h := h) raw x
    have hmade : (∀ m ∈ (deliver h raw x).2.1, m.late = false) ∧
        (deliver h raw x).2.2 = (if (h (.message x.line false (message raw))).throws.isSome && (message raw).isJson then
          (h (.message x.line true (.text raw))).throws else (h (.message x.line false (message raw))).throws) ∧
        (deliver h raw x).1.closed = ((h (.message x.line false (message raw))).closes ||
          ((h (.message x.line false (message raw))).throws.isSome && (message raw).isJson &&
            (h (.message x.line true (.text raw))).closes)) := by
      unfold deliver
      dsimp only
      split
      next value err hjson hthrows =>
        have hcloses := hagain (by rw [hthrows, hjson]; rfl)
        refine ⟨?_, ?_, ?_⟩
        · intro m hm
          rcases List.mem_cons.mp hm with rfl | hm
          · exact hx
          · rw [List.mem_singleton.mp hm]
            simp [hx, hcloses]
        · rw [hthrows, hjson]
          rfl
        · rw [hthrows, hjson]
          simp [hx, Message.isJson]
      next hnot =>
        have hfalse : ((h (.message x.line false (message raw))).throws.isSome && (message raw).isJson) = false := by
          cases hthrows : (h (.message x.line false (message raw))).throws with
          | none => rfl
          | some err =>
            cases hm : message raw with
            | json value => exact absurd hthrows (hnot value err hm)
            | done | text => rfl
        refine ⟨?_, ?_, ?_⟩
        · intro m hm
          rw [List.mem_singleton.mp hm]
          exact hx
        · rw [hfalse]
          rfl
        · rw [hfalse]
          simp [hx]
    obtain ⟨hlate, hthrown, hclosed⟩ := hmade
    unfold deliverAll
    rcases hd : deliver h raw x with ⟨x', made, _ | err⟩ <;> rw [hd] at hlate hthrown hclosed hline
    · have hnext := hrest (by rw [← hthrown]; rfl)
      intro m hm
      rcases List.mem_append.mp hm with hm | hm
      · exact hlate m hm
      · split at hnext
        · rw [hnext] at hm
          cases hm
        next hopen =>
          refine ih ?_ (by rw [hline]; exact hnext) m hm
          rw [hclosed]
          exact Bool.eq_false_iff.mpr hopen
    · exact hlate

end Handle

/-- What a step of a stream reports at its end. -/
inductive Ending (x : Handle) : List Made → Prop
  | silent : Ending x []
  | error (err : Text) (hphase : x.phase = .ended) (hopen : x.closed = false) : Ending x [⟨.error err, false⟩]

/-- No callback is left to be called once one has closed the stream. -/
def Parts (h : Handler) (x : Handle) : Event → Prop
  | .response res => x.phase = .connecting → res.refusal = none → x.closed = false
  | .chunk value =>
    let buffer := x.reader.buffer ++ (x.reader.decoder.decode value).1
    x.phase = .reading → units buffer ≤ maxBufferChars →
      if x.closed then dataOf buffer = [] else Ceases h x.line (dataOf buffer)
  | _ => True

instance (h : Handler) (x : Handle) (e : Event) : Decidable (Parts h x e) := by
  unfold Parts
  dsimp only
  split <;> infer_instance

/-- The calls of a step: those for headers or data lines, then the one for an error. -/
structure Played (h : Handler) (x x' : Handle) (made : List Made) (first last : List Made) : Prop where
  parts : made = first ++ last
  chain : Chain h x.closed first x'.closed
  kind : first = [] ∨ first = [⟨.headers, x.closed⟩] ∨ AllMessages first
  punctual : ∀ m ∈ first, m.late = false
  ending : Ending x' last

namespace Handle
variable {h : Handler}

theorem closed_fail (herror : ∀ err, h (.error err) = ⟨false, none⟩) (err : Thrown) (x : Handle) :
    (fail h err x).1.closed = x.closed := by
  unfold fail
  split
  · rfl
  next message _ =>
    show (after h (.error message) x).closed = x.closed
    rw [closed_after, herror]
    exact Bool.or_false _

theorem ending_fail (herror : ∀ err, h (.error err) = ⟨false, none⟩) (err : Thrown) (x : Handle) :
    Ending (fail h err x).1 (fail h err x).2 := by
  have hended := ended_fail (h := h) err x
  have hclosed := closed_fail herror err x
  unfold fail at hended hclosed ⊢
  cases hr : x.report err with
  | none => exact .silent
  | some message =>
    rw [hr] at hended hclosed
    have hopen : x.closed = false := by
      unfold report at hr
      split at hr
      · cases hr
      next hc => exact Bool.eq_false_iff.mpr hc
    dsimp only at hended hclosed ⊢
    rw [hopen] at hclosed ⊢
    exact .error message hended hclosed

theorem played_silent (x x' : Handle) (hclosed : x'.closed = x.closed) : Played h x x' [] [] [] :=
  ⟨rfl, hclosed, Or.inl rfl, fun _ hm => (nomatch hm), .silent⟩

theorem played_fail (herror : ∀ err, h (.error err) = ⟨false, none⟩) (err : Thrown) {x y : Handle} (hy : y.closed = x.closed) :
    Played h x (fail h err y).1 (fail h err y).2 [] (fail h err y).2 :=
  ⟨rfl, (closed_fail herror err y).trans hy, Or.inl rfl, fun _ hm => (nomatch hm), ending_fail herror err y⟩

theorem played_readHeaders (herror : ∀ err, h (.error err) = ⟨false, none⟩) (res : Response) {x : Handle}
    (hopen : res.refusal = none → x.closed = false) :
    ∃ first last, Played h x (readHeaders h res x).1 (readHeaders h res x).2 first last := by
  unfold readHeaders
  dsimp only
  split
  · exact ⟨_, _, played_fail herror _ rfl⟩
  next hrefusal =>
    have hpunctual : ∀ m ∈ [(⟨.headers, x.closed⟩ : Made)], m.late = false := by
      intro m hm
      rw [List.mem_singleton.mp hm]
      exact hopen hrefusal
    split
    · refine ⟨[⟨.headers, x.closed⟩], _, rfl, ⟨rfl, ?_⟩, Or.inr (Or.inl rfl), hpunctual, ending_fail herror _ _⟩
      dsimp only
      rw [closed_fail herror]
      simp [Chain]
    · refine ⟨[⟨.headers, x.closed⟩], [], rfl, ⟨rfl, ?_⟩, Or.inr (Or.inl rfl), hpunctual, .silent⟩
      unfold loop
      split <;> simp [Chain, finish]

theorem played_readChunk (herror : ∀ err, h (.error err) = ⟨false, none⟩) (value : Bytes) {x : Handle}
    (hparts : units (x.reader.buffer ++ (x.reader.decoder.decode value).1) ≤ maxBufferChars →
      if x.closed then dataOf (x.reader.buffer ++ (x.reader.decoder.decode value).1) = []
      else Ceases h x.line (dataOf (x.reader.buffer ++ (x.reader.decoder.decode value).1))) :
    ∃ first last, Played h x (readChunk h value x).1 (readChunk h value x).2 first last := by
  let y : Handle := { x with
    idleTimer := true
    reader := ⟨(x.reader.decoder.decode value).2, JsText.remainder newline (x.reader.buffer ++ (x.reader.decoder.decode value).1)⟩ }
  obtain ⟨hchain, hdata⟩ := chain_deliverAll (h := h) (dataOf (x.reader.buffer ++ (x.reader.decoder.decode value).1)) y
  unfold readChunk
  dsimp only
  split
  · exact ⟨_, _, played_fail herror _ rfl⟩
  next hlimit =>
    have hlate : ∀ m ∈ (deliverAll h (dataOf (x.reader.buffer ++ (x.reader.decoder.decode value).1)) y).2.1, m.late = false := by
      have hcond := hparts (Nat.le_of_not_lt hlimit)
      split at hcond
      · rw [hcond]
        exact fun m hm => nomatch hm
      next hopen => exact late_deliverAll (x := y) (Bool.eq_false_iff.mpr hopen) _ hcond
    split
    next x' made hd =>
      rw [show deliverAll h _ y = _ from hd] at hchain hdata hlate
      refine ⟨made, [], (List.append_nil made).symm, ?_, Or.inr (Or.inr hdata), hlate, .silent⟩
      have hsame : (loop x').closed = x'.closed := by
        unfold loop
        split <;> rfl
      rw [hsame]
      exact hchain
    next x' made err hd =>
      rw [show deliverAll h _ y = _ from hd] at hchain hdata hlate
      refine ⟨made, _, rfl, ?_, Or.inr (Or.inr hdata), hlate, ending_fail herror err x'⟩
      dsimp only
      rw [closed_fail herror]
      exact hchain

theorem played_step (herror : ∀ err, h (.error err) = ⟨false, none⟩) {x : Handle} {e : Event} (he : e ≠ .close)
    (hparts : Parts h x e) : ∃ first last, Played h x (step h x e).1 (step h x e).2 first last := by
  cases e with
  | close => exact absurd rfl he
  | response res =>
    unfold step
    dsimp only
    split
    next hphase => exact played_readHeaders herror res (hparts hphase)
    · exact ⟨_, _, played_silent x x rfl⟩
  | chunk value =>
    unfold step
    dsimp only
    split
    next hphase => exact played_readChunk herror value (hparts hphase)
    · exact ⟨_, _, played_silent x x rfl⟩
  | rejected err =>
    unfold step
    dsimp only
    split
    · exact ⟨_, _, played_silent x x rfl⟩
    · exact ⟨_, _, played_fail herror err rfl⟩
  | endOfBody | handshakeTimeout | idleTimeout =>
    unfold step
    dsimp only
    split <;> exact ⟨_, _, played_silent x _ rfl⟩

end Handle

/-! ### The log -/

/-- One more reconnect, or none since the last message. -/
def Entry.count (n : ℕ) : Entry → ℕ
  | .reconnect => n + 1
  | .call (.message _ _ _) _ => 0
  | _ => n

/-- The reconnects since the last message. -/
def since (log : List Entry) : ℕ := log.foldl Entry.count 0

theorem since_snoc (log : List Entry) (e : Entry) : since (log ++ [e]) = e.count (since log) := by
  unfold since
  rw [List.foldl_append]
  rfl

/-- Whether the entry belongs to the answer to an error. -/
def Entry.answers : Entry → Bool
  | .failed | .scheduled _ | .call (.reconnecting _) _ | .call (.error _) _ => true
  | _ => false

/-- Each error leads to one scheduled reconnect or to one call of `onError`, and nothing
else does. -/
inductive Answered : List Entry → Prop
  | nil : Answered []
  | retry {log : List Entry} (attempt delay : ℕ) (late : Bool) (h : Answered log) :
    Answered (log ++ [.failed] ++ [.call (.reconnecting attempt) late] ++ [.scheduled delay])
  | report {log : List Entry} (err : Text) (late : Bool) (h : Answered log) :
    Answered (log ++ [.failed] ++ [.call (.error err) late])
  | other {log : List Entry} (e : Entry) (he : e.answers = false) (h : Answered log) : Answered (log ++ [e])

/-- What the log has in each prefix, and what it has together with the attempt counter;
`pending` is one while a reconnect is scheduled. -/
structure Kept (maxRetries : ℕ) (log : List Entry) (attempt pending : ℕ) : Prop where
  counted : since log + pending ≤ attempt
  bounded : attempt ≤ maxRetries
  reconnects : ∀ p, p <+: log → since p ≤ maxRetries
  punctual : ∀ n late, Entry.call n late ∈ log → late = false

namespace Kept
variable {maxRetries : ℕ} {log : List Entry} {attempt pending : ℕ}

theorem snoc (h : Kept maxRetries log attempt pending) {e : Entry} {attempt' pending' : ℕ}
    (hcounted : e.count (since log) + pending' ≤ attempt') (hbounded : attempt' ≤ maxRetries)
    (hpunctual : ∀ n late, e = .call n late → late = false) : Kept maxRetries (log ++ [e]) attempt' pending' := by
  have hsince := since_snoc log e
  refine ⟨by omega, hbounded, ?_, ?_⟩
  · intro p hp
    rcases List.prefix_concat_iff.mp hp with rfl | hp
    · omega
    · exact h.reconnects p hp
  · intro n late hmem
    rcases List.mem_append.mp hmem with hmem | hmem
    · exact h.punctual n late hmem
    · exact hpunctual n late (List.mem_singleton.mp hmem).symm

theorem call (h : Kept maxRetries log attempt pending) (n : Notice) : Kept maxRetries (log ++ [.call n false]) attempt pending := by
  have hcount : (Entry.call n false).count (since log) ≤ since log := by
    cases n with
    | message => exact Nat.zero_le _
    | headers | reconnected | reconnecting | error | stalled => exact le_rfl
  have hcounted := h.counted
  refine h.snoc (by omega) h.bounded ?_
  intro m late heq
  injection heq with _ hlate
  exact hlate.symm

theorem message (h : Kept maxRetries log attempt pending) (line : ℕ) (again : Bool) (data : Message) :
    Kept maxRetries (log ++ [.call (.message line again data) false]) 0 0 := by
  refine h.snoc le_rfl (Nat.zero_le _) ?_
  intro m late heq
  injection heq with _ hlate
  exact hlate.symm

theorem failed (h : Kept maxRetries log attempt pending) : Kept maxRetries (log ++ [.failed]) attempt pending :=
  h.snoc h.counted h.bounded fun _ _ heq => nomatch heq

theorem more (h : Kept maxRetries log attempt pending) {attempt' pending' : ℕ} (hcounted : since log + pending' ≤ attempt')
    (hbounded : attempt' ≤ maxRetries) : Kept maxRetries log attempt' pending' :=
  ⟨hcounted, hbounded, h.reconnects, h.punctual⟩

/-- A retry is scheduled where the limit allows one more. -/
theorem retry (h : Kept maxRetries log attempt 0) (hlimit : attempt < maxRetries) (n : Notice) (delay : ℕ) :
    Kept maxRetries (log ++ [.failed] ++ [.call n false] ++ [.scheduled delay]) (attempt + 1) 1 := by
  have hcall := h.failed.call n
  have hcounted := hcall.counted
  have hmore : Kept maxRetries (log ++ [.failed] ++ [.call n false]) (attempt + 1) 1 := hcall.more (by omega) hlimit
  exact hmore.snoc hmore.counted hmore.bounded fun _ _ heq => nomatch heq

theorem reconnect (h : Kept maxRetries log attempt 1) : Kept maxRetries (log ++ [.reconnect]) attempt 0 :=
  h.snoc h.counted h.bounded fun _ _ heq => nomatch heq

theorem idle (h : Kept maxRetries log attempt pending) : Kept maxRetries log attempt 0 :=
  h.more ((Nat.add_le_add_left (Nat.zero_le _) _).trans h.counted) h.bounded

end Kept

/-- Between two messages there are at most `maxRetries` reconnects. -/
theorem reconnects_le {maxRetries : ℕ} {log a b c : List Entry} (h : ∀ p, p <+: log → since p ≤ maxRetries)
    (hlog : log = a ++ b ++ c) (hb : ∀ e ∈ b, ∀ line again data late, e ≠ .call (.message line again data) late) :
    b.countP (fun e => e matches .reconnect) ≤ maxRetries := by
  have hsince : since a + b.countP (fun e => e matches .reconnect) ≤ since (a ++ b) := by
    clear hlog
    induction b using List.reverseRecOn with
    | nil => simp
    | append_singleton b e ih =>
      have hrest := ih fun e he => hb e (List.mem_append_left _ he)
      have hnot := hb e (by simp)
      rw [← List.append_assoc, since_snoc, List.countP_append]
      cases e with
      | reconnect =>
        simp only [List.countP_singleton, Entry.count, if_true]
        omega
      | call n late =>
        cases n with
        | message line again data => exact absurd rfl (hnot line again data late)
        | headers | reconnected | reconnecting | error | stalled => simpa [Entry.count] using hrest
      | failed | scheduled => simpa [Entry.count] using hrest
  have hbound := h (a ++ b) ⟨c, hlog.symm⟩
  omega

/-! ### The invariant -/

namespace Reconnecting
variable {maxRetries : ℕ} {user : Notice → Behaviour} {s : Reconnecting} {y : Handle}

/-- One stream at most is not over, and none while a reconnect is scheduled; after
`close` the timers are off. -/
structure Good (maxRetries : ℕ) (s : Reconnecting) : Prop where
  former : ∀ x ∈ s.former, x.phase = .ended ∧ x.Rested
  rested : s.currentHandle.Rested
  synced : s.currentHandle.closed = s.closed
  waiting : s.reconnectTimer.isSome → s.currentHandle.phase = .ended
  off : s.closed = true → s.stalledTimer = false ∧ s.reconnectTimer = none
  kept : Kept maxRetries s.log s.attempt (if s.reconnectTimer.isSome then 1 else 0)
  answered : Answered s.log

/-- No callback is left to be called once one has closed the stream, and the callback for
a retry neither closes it nor throws. -/
def Careful (s : Reconnecting) (o : Outcome × (Notice → Behaviour)) : Prop :=
  match o.1 with
  | .current e =>
    Parts (handler o.2 s.attempt) s.currentHandle e ∧
      (0 < s.attempt → (o.2 .reconnected).closes = true → (o.2 .reconnected).throws.isSome = true) ∧
        ∀ n, o.2 (.reconnecting n) = ⟨false, none⟩
  | _ => True

theorem good_start : Good maxRetries start := by
  refine ⟨fun x hx => (nomatch hx), Handle.rested_opened, rfl, fun h => (nomatch h), fun h => (nomatch h),
    ⟨le_rfl, Nat.zero_le _, ?_, fun _ _ hmem => nomatch hmem⟩, .nil⟩
  intro p hp
  rw [List.prefix_nil.mp hp]
  exact Nat.zero_le _

/-- While the callbacks of a step are called; `y` is the stream after the step. -/
structure Midway (maxRetries : ℕ) (y : Handle) (former : List Handle) (s : Reconnecting) : Prop where
  handle : s.currentHandle = y ∨ s.currentHandle = y.close ∧ s.closed = true
  former : s.former = former
  timer : s.reconnectTimer = none
  off : s.closed = true → s.stalledTimer = false
  kept : Kept maxRetries s.log s.attempt 0
  answered : Answered s.log

theorem call_open (n : Notice) (hs : s.closed = false) :
    call user n s = if (user n).closes then close (note (.call n false) s) else note (.call n false) s := by
  unfold call
  rw [hs]

theorem closed_call (n : Notice) (s : Reconnecting) : (call user n s).closed = (s.closed || (user n).closes) := by
  unfold call
  cases (user n).closes <;> simp [close, note]

/-- A callback that has nothing to do with an error. -/
theorem midway_call {fs : List Handle} (hhandle : s.currentHandle = y) (hformer : s.former = fs) (htimer : s.reconnectTimer = none)
    (hs : s.closed = false) (n : Notice) (hkept : Kept maxRetries (s.log ++ [.call n false]) s.attempt 0)
    (hanswered : Answered (s.log ++ [.call n false])) : Midway maxRetries y fs (call user n s) := by
  rw [call_open n hs]
  split
  · exact ⟨Or.inr ⟨congrArg Handle.close hhandle, rfl⟩, hformer, rfl, fun _ => rfl, hkept, hanswered⟩
  · refine ⟨Or.inl hhandle, hformer, htimer, ?_, hkept, hanswered⟩
    intro hclosed
    rw [show (note (.call n false) s).closed = s.closed from rfl, hs] at hclosed
    cases hclosed

theorem Midway.open_handle {fs : List Handle} (h : Midway maxRetries y fs s) (hs : s.closed = false) : s.currentHandle = y := by
  rcases h.handle with heq | ⟨-, hclosed⟩
  · exact heq
  · rw [hs] at hclosed
    cases hclosed

theorem midway_message {fs : List Handle} (h : Midway maxRetries y fs s) (hs : s.closed = false) (line : ℕ) (again : Bool)
    (data : Message) : Midway maxRetries y fs (react maxRetries user s (.message line again data)) :=
  midway_call (s := { s with attempt := 0, stalledTimer := true }) (h.open_handle hs) h.former h.timer hs _
    (h.kept.message line again data) (.other _ rfl h.answered)

theorem midway_messages {fs : List Handle} {attempt : ℕ} {made : List Made} {c : Bool} (h : Midway maxRetries y fs s)
    (hchain : Chain (handler user attempt) s.closed made c) (hdata : AllMessages made) (hlate : ∀ m ∈ made, m.late = false) :
    Midway maxRetries y fs (reactAll maxRetries user made s) ∧ (reactAll maxRetries user made s).closed = c := by
  induction made generalizing s with
  | nil => exact ⟨h, hchain.symm⟩
  | cons m made ih =>
    obtain ⟨hhead, hrest⟩ := hchain
    have hs : s.closed = false := hhead.symm.trans (hlate m (List.mem_cons_self ..))
    obtain ⟨n, again, data, hcall⟩ := hdata m (List.mem_cons_self ..)
    have hnext : Midway maxRetries y fs (react maxRetries user s m.call) := by
      rw [hcall]
      exact midway_message h hs n again data
    have hclosed : (react maxRetries user s m.call).closed = (s.closed || (handler user attempt m.call).closes) := by
      rw [hcall]
      exact closed_call _ _
    rw [← hclosed] at hrest
    exact ih hnext hrest (fun m' hm' => hdata m' (List.mem_cons_of_mem _ hm')) fun m' hm' => hlate m' (List.mem_cons_of_mem _ hm')

theorem midway_headers {fs : List Handle} (h : Midway maxRetries y fs s) (hs : s.closed = false)
    (hcareful : 0 < s.attempt → (user .reconnected).closes = true → (user .reconnected).throws.isSome = true) :
    Midway maxRetries y fs (onHeaders user s) ∧ (onHeaders user s).closed = (handler user s.attempt .headers).closes := by
  unfold onHeaders handler
  by_cases hattempt : 0 < s.attempt
  · rw [if_pos hattempt, if_pos hattempt]
    have hfirst : Midway maxRetries y fs (call user .reconnected s) :=
      midway_call (h.open_handle hs) h.former h.timer hs _ (h.kept.call _) (.other _ rfl h.answered)
    have hclosed : (call user .reconnected s).closed = (user .reconnected).closes := by
      rw [closed_call, hs, Bool.false_or]
    dsimp only
    cases hthrows : (user .reconnected).throws.isSome with
    | true =>
      rw [if_pos rfl, if_pos rfl]
      exact ⟨hfirst, hclosed⟩
    | false =>
      have hopen : (user .reconnected).closes = false := by
        cases hc : (user .reconnected).closes with
        | false => rfl
        | true => exact absurd (hcareful hattempt hc) (by rw [hthrows]; decide)
      rw [hopen] at hclosed
      rw [if_neg Bool.false_ne_true, if_neg Bool.false_ne_true, hopen]
      refine ⟨?_, ?_⟩
      · exact midway_call (s := { call user .reconnected s with stalledTimer := true }) (hfirst.open_handle hclosed)
          hfirst.former hfirst.timer hclosed _ (hfirst.kept.call _) (.other _ rfl hfirst.answered)
      · refine (closed_call _ _).trans ?_
        rw [show ({ call user .reconnected s with stalledTimer := true } : Reconnecting).closed = _ from hclosed]
  · rw [if_neg hattempt, if_neg hattempt]
    refine ⟨?_, ?_⟩
    · exact midway_call (s := { s with stalledTimer := true }) (h.open_handle hs) h.former h.timer hs _ (h.kept.call _)
        (.other _ rfl h.answered)
    · refine (closed_call _ _).trans ?_
      rw [show ({ s with stalledTimer := true } : Reconnecting).closed = _ from hs, Bool.false_or]

theorem Midway.synced {fs : List Handle} (h : Midway maxRetries y fs s) (hclosed : y.closed = s.closed) :
    s.currentHandle.closed = s.closed := by
  rcases h.handle with heq | ⟨heq, hc⟩
  · rw [heq]
    exact hclosed
  · rw [heq, hc]
    rfl

theorem synced_call (n : Notice) (h : s.currentHandle.closed = s.closed) :
    (call user n s).currentHandle.closed = (call user n s).closed := by
  unfold call
  dsimp only
  split
  · rfl
  · exact h

/-- The callbacks of the step have been called. -/
theorem Midway.good {fs : List Handle} (h : Midway maxRetries y fs s) (hy : y.Rested) (hsynced : s.currentHandle.closed = s.closed)
    (hfs : ∀ x ∈ fs, x.phase = .ended ∧ x.Rested) : Good maxRetries s := by
  refine ⟨by rw [h.former]; exact hfs, ?_, hsynced, ?_, fun hc => ⟨h.off hc, h.timer⟩, ?_, h.answered⟩
  · rcases h.handle with heq | ⟨heq, -⟩
    · rw [heq]
      exact hy
    · rw [heq]
      exact Handle.rested_close y
  · rw [h.timer]
    exact fun hsome => nomatch hsome
  · rw [h.timer]
    exact h.kept

/-- The last of them is the one for an error. -/
theorem Midway.error {fs : List Handle} (h : Midway maxRetries y fs s) (hy : y.Rested) (hs : s.closed = false) (hended : y.phase = .ended)
    (hclosed : y.closed = false) (hfs : ∀ x ∈ fs, x.phase = .ended ∧ x.Rested)
    (hcareful : ∀ n, user (.reconnecting n) = ⟨false, none⟩) (err : Text) :
    Good maxRetries (onError maxRetries user err s) := by
  have hhandle := h.open_handle hs
  have hopen : ¬ s.closed = true := by
    rw [hs]
    exact Bool.false_ne_true
  have hsynced : s.currentHandle.closed = s.closed := by rw [hhandle, hclosed, hs]
  unfold onError
  rw [if_neg hopen]
  dsimp only
  split
  next hlimit =>
    have hquiet := hcareful (s.attempt + 1)
    simp only [call, note, hs, hquiet, Option.isSome_none, Bool.false_eq_true, if_false]
    refine ⟨by rw [show _ = fs from h.former]; exact hfs, ?_, hsynced.trans hs, ?_, fun hc => (nomatch hc), ?_, ?_⟩
    · show s.currentHandle.Rested
      rw [hhandle]
      exact hy
    · intro _
      show s.currentHandle.phase = .ended
      rw [hhandle]
      exact hended
    · exact h.kept.retry hlimit _ _
    · exact .retry _ _ _ h.answered
  next hlimit =>
    have hcall : Midway maxRetries y fs (call user (.error err) (note .failed { s with stalledTimer := false })) :=
      midway_call (s := note .failed { s with stalledTimer := false }) hhandle h.former h.timer hs _ (h.kept.failed.call _)
        (.report _ _ h.answered)
    exact hcall.good hy (synced_call (s := note .failed { s with stalledTimer := false }) _ hsynced) hfs

theorem herror_handler (attempt : ℕ) (err : Text) : handler user attempt (.error err) = ⟨false, none⟩ := rfl

theorem advance_eq (x : Handle) (s : Reconnecting) {e : Event} (he : e ≠ .close) :
    advance user x s e = Handle.step (handler user s.attempt) x e := by
  cases e with
  | close => exact absurd rfl he
  | response | chunk | endOfBody | rejected | handshakeTimeout | idleTimeout => rfl

theorem good_current (h : Good maxRetries s) {e : Event} (hk : Careful s (.current e, user)) :
    Good maxRetries (step maxRetries user s (.current e)) := by
  obtain ⟨hparts, hreconnected, hreconnecting⟩ := hk
  by_cases he : e = .close
  · rw [he]
    exact h
  show Good maxRetries (reactAll maxRetries user (advance user s.currentHandle s e).2
    { s with currentHandle := (advance user s.currentHandle s e).1 })
  rw [advance_eq _ _ he]
  by_cases hpending : s.reconnectTimer.isSome = true
  · rw [Handle.step_ended (h.waiting hpending) h.rested he]
    exact h
  · have htimer : s.reconnectTimer = none := Option.not_isSome_iff_eq_none.mp hpending
    have hrested := Handle.rested_step (h := handler user s.attempt) s.currentHandle h.rested e
    obtain ⟨first, last, hplayed⟩ := Handle.played_step (herror_handler s.attempt) he hparts
    generalize Handle.step (handler user s.attempt) s.currentHandle e = out at hrested hplayed
    obtain ⟨y, made⟩ := out
    dsimp only at hrested hplayed ⊢
    have hkept := h.kept
    rw [htimer] at hkept
    have hstart : Midway maxRetries y s.former { s with currentHandle := y } :=
      ⟨Or.inl rfl, rfl, htimer, fun hc => (h.off hc).1, hkept, h.answered⟩
    have hchain := hplayed.chain
    rw [h.synced] at hchain
    have hfirst : Midway maxRetries y s.former (reactAll maxRetries user first { s with currentHandle := y }) ∧
        (reactAll maxRetries user first { s with currentHandle := y }).closed = y.closed := by
      rcases hplayed.kind with rfl | rfl | hdata
      · exact ⟨hstart, hchain.symm⟩
      · have hopen : s.closed = false := h.synced.symm.trans (hplayed.punctual _ (List.mem_singleton.mpr rfl))
        obtain ⟨hmidway, hclosed⟩ := midway_headers (s := { s with currentHandle := y }) hstart hopen hreconnected
        refine ⟨hmidway, hclosed.trans ?_⟩
        rw [show y.closed = _ from hchain.2, hopen, Bool.false_or]
      · exact midway_messages hstart hchain hdata hplayed.punctual
    obtain ⟨hmidway, hclosed⟩ := hfirst
    rw [hplayed.parts]
    unfold reactAll at hmidway hclosed ⊢
    rw [List.foldl_append]
    cases hplayed.ending with
    | silent => exact hmidway.good hrested (hmidway.synced hclosed.symm) h.former
    | error err hphase hopen =>
      exact hmidway.error hrested (hclosed.trans hopen) hphase hopen h.former hreconnecting err

theorem good_step {o : Outcome × (Notice → Behaviour)} (h : Good maxRetries s) (hk : Careful s o) :
    Good maxRetries (step maxRetries o.2 s o.1) := by
  obtain ⟨o, user⟩ := o
  cases o with
  | current e => exact good_current h hk
  | former k e =>
    unfold step
    dsimp only
    cases hx : s.former[k]? with
    | none => exact h
    | some x =>
      obtain ⟨hended, hrested⟩ := h.former x (List.mem_of_getElem? hx)
      have hsilent : advance user x s e = (x, []) := by
        by_cases he : e = .close
        · rw [he]
          rfl
        · rw [advance_eq _ _ he]
          exact Handle.step_ended hended hrested he
      dsimp only
      rw [hsilent]
      have hsame : s.former.set k x = s.former := by
        obtain ⟨hk, rfl⟩ := List.getElem?_eq_some_iff.mp hx
        exact List.set_getElem_self hk
      show Good maxRetries { s with former := s.former.set k x }
      rw [hsame]
      exact h
  | stalledTimeout =>
    unfold step
    dsimp only
    split
    · split
      next hc => exact ⟨h.former, h.rested, h.synced, h.waiting, fun hc => ⟨rfl, (h.off hc).2⟩, h.kept, h.answered⟩
      next hc =>
        have hs : s.closed = false := Bool.eq_false_iff.mpr hc
        rw [call_open _ (show ({ s with stalledTimer := false } : Reconnecting).closed = false from hs)]
        split
        · exact ⟨h.former, Handle.rested_close _, rfl, fun hsome => (nomatch hsome), fun _ => ⟨rfl, rfl⟩,
            (h.kept.call .stalled).idle, .other _ rfl h.answered⟩
        · exact ⟨h.former, h.rested, h.synced, h.waiting, fun hclosed => absurd hclosed hc, h.kept.call .stalled,
            .other _ rfl h.answered⟩
    · exact h
  | reconnectTimeout =>
    unfold step
    dsimp only
    split
    next hpending =>
      have hended := h.waiting hpending
      have hkept := h.kept
      rw [if_pos hpending] at hkept
      unfold connect
      split
      next hc =>
        exact ⟨h.former, h.rested, h.synced, fun hsome => (nomatch hsome), fun hc => ⟨(h.off hc).1, rfl⟩, hkept.idle, h.answered⟩
      next hc =>
        have hc : ¬ s.closed = true := hc
        refine ⟨?_, Handle.rested_opened, (Bool.eq_false_iff.mpr hc).symm, fun hsome => (nomatch hsome),
          fun hclosed => absurd hclosed hc, hkept.reconnect, .other _ rfl h.answered⟩
        intro x hx
        rcases List.mem_append.mp hx with hx | hx
        · exact h.former x hx
        · rw [List.mem_singleton.mp hx]
          exact ⟨hended, h.rested⟩
    · exact h
  | close =>
    refine ⟨h.former, Handle.rested_close _, rfl, fun hsome => (nomatch hsome), fun _ => ⟨rfl, rfl⟩, h.kept.idle, h.answered⟩

/-- Along every run of careful steps: reconnects are bounded between two messages, each
error is answered once, one stream at most is not over, no callback is called after
`close`, and no timer runs on after it. -/
theorem reconnects_bounded_and_closed (maxRetries : ℕ) (os : List (Outcome × (Notice → Behaviour)))
    (h : (machine maxRetries).Along Careful start os) :
    let s := (machine maxRetries).run start os
    (∀ a b c, s.log = a ++ b ++ c → (∀ e ∈ b, ∀ line again data late, e ≠ .call (.message line again data) late) →
        b.countP (fun e => e matches .reconnect) ≤ maxRetries) ∧
      Answered s.log ∧
      ((s.currentHandle :: s.former).countP fun x => decide (x.phase ≠ .ended)) ≤ 1 ∧
      (∀ n late, .call n late ∈ s.log → late = false) ∧
      (s.closed = true → s.stalledTimer = false ∧ s.reconnectTimer = none ∧
        ∀ x ∈ s.currentHandle :: s.former, x.handshakeTimer = false ∧ x.idleTimer = false) := by
  intro s
  have hgood : Good maxRetries s :=
    (machine maxRetries).run_invariant_along (fun _ _ hs hk => good_step hs hk) good_start h
  refine ⟨?_, hgood.answered, ?_, hgood.kept.punctual, ?_⟩
  · intro a b c hlog hb
    exact reconnects_le hgood.kept.reconnects hlog hb
  · have hnone : (s.former.countP fun x => decide (x.phase ≠ .ended)) = 0 := by
      rw [List.countP_eq_zero]
      intro x hx
      simp [(hgood.former x hx).1]
    rw [List.countP_cons, hnone]
    split <;> omega
  · intro hclosed
    obtain ⟨hstalled, htimer⟩ := hgood.off hclosed
    refine ⟨hstalled, htimer, ?_⟩
    intro x hx
    rcases List.mem_cons.mp hx with rfl | hx
    · exact hgood.rested (Or.inr (hgood.synced.trans hclosed))
    · obtain ⟨hended, hrested⟩ := hgood.former x hx
      exact hrested (Or.inl hended)

def quiet : Notice → Behaviour := fun _ => ⟨false, none⟩

/-- The connection is closed at the second message. -/
def closesSecond : Notice → Behaviour
  | .message 1 false _ => ⟨true, none⟩
  | _ => ⟨false, none⟩

/-- A reconnect, then a chunk whose last line closes the connection. -/
def closedAtLastLine : List (Outcome × (Notice → Behaviour)) :=
  [(.current (.rejected (.error (ofString "refused"))), quiet), (.reconnectTimeout, quiet), (.current (.response okResponse), quiet),
    (.current (.chunk (asciiBytes "data: \x7b\x7d\ndata: [DONE]\n")), closesSecond)]

theorem reconnects_bounded_and_closed_sample :
    let s := (machine 3).run start closedAtLastLine
    (∀ a b c, s.log = a ++ b ++ c → (∀ e ∈ b, ∀ line again data late, e ≠ .call (.message line again data) late) →
        b.countP (fun e => e matches .reconnect) ≤ 3) ∧
      Answered s.log ∧
      ((s.currentHandle :: s.former).countP fun x => decide (x.phase ≠ .ended)) ≤ 1 ∧
      (∀ n late, .call n late ∈ s.log → late = false) ∧
      (s.closed = true → s.stalledTimer = false ∧ s.reconnectTimer = none ∧
        ∀ x ∈ s.currentHandle :: s.former, x.handshakeTimer = false ∧ x.idleTimer = false) := by
  refine reconnects_bounded_and_closed 3 closedAtLastLine ⟨?_, trivial, ?_, ?_, trivial⟩
  all_goals exact ⟨by decide +kernel, fun _ hc => (nomatch hc), fun _ => rfl⟩

/-- The connection is closed at the first of two data lines of a chunk: the second one is
passed on, and the stalled timer runs. -/
theorem reconnecting_after_close :
    let s := (machine 3).run start [(.current (.response okResponse), quiet),
      (.current (.chunk (asciiBytes "data: \x7b\x7d\ndata: [DONE]\n")), fun n => match n with
        | .message 0 false _ => ⟨true, none⟩
        | _ => ⟨false, none⟩)]
    s.closed = true ∧ s.stalledTimer = true ∧ s.log.any (fun e => e matches .call (.message 1 false _) true) = true := by
  decide +kernel

end Reconnecting

end AgentWorkflow.Desktop.Sse
