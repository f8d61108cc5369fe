import AgentWorkflow.Desktop.Sse
import AgentWorkflow.Lib.Machine

/-!
# The handle of an event stream

`createSSEStream` with its timers, its `close` and its callbacks, which may throw or
close the stream. An event is what its coroutine waits for, a timer that fires or a call
of `close` from outside.
-/

namespace AgentWorkflow.Desktop.Sse
open AgentWorkflow.Lib AgentWorkflow.Lib.PyStr

/-- What the `catch` clause gets; `nullish` has no `name` to read. -/
inductive Thrown
  | abortError
  | error (message : Text)
  | nullish

inductive TimeoutCode
  | handshake
  | idle

def TimeoutCode.text : TimeoutCode → Text
  | .handshake => ofString "sse_handshake_timeout"
  | .idle => ofString "sse_idle_timeout"

def Message.isJson : Message → Bool
  | .json _ => true
  | _ => false

/-- A call of a callback. The data lines are numbered; `again` is the call in the
`catch` clause around `JSON.parse`. -/
inductive Call
  | headers
  | message (line : ℕ) (again : Bool) (data : Message)
  | error (err : Text)

def Call.dataLine : Call → Option ℕ
  | .message n _ _ => some n
  | _ => none

structure Behaviour where
  closes : Bool
  throws : Option Thrown

/-- What the callbacks do at each call. -/
abbrev Handler := Call → Behaviour

/-- A call that was made, and whether `close` had been called before. -/
structure Made where
  call : Call
  late : Bool

structure Response where
  ok : Bool
  hasBody : Bool
  status : ℕ
  contentType : Option Text

def lowerCase (t : Text) : Text :=
  t.map fun c => if (ofString "A").all (· ≤ c) ∧ (ofString "Z").all (c ≤ ·) then c + 32 else c

def decimal (n : ℕ) : Text := (Nat.toDigits 10 n).map fun c => Fin.ofNat _ c.toNat

/-- The error for a response that is no event stream. -/
def Response.refusal (res : Response) : Option Text :=
  let contentType := lowerCase (res.contentType.getD [])
  if res.ok = false ∨ res.hasBody = false then some (ofString "sse_http_" ++ decimal res.status)
  else if contentType ≠ [] ∧ ¬ ofString "text/event-stream" <:+: contentType then some (ofString "sse_invalid_content_type")
  else none

inductive Phase
  | connecting
  | reading
  | ended
deriving DecidableEq

/-- The variables of one stream; `line` counts the data lines. -/
structure Handle where
  phase : Phase
  closed : Bool
  timeoutCode : Option TimeoutCode
  handshakeTimer : Bool
  idleTimer : Bool
  reader : Reader
  line : ℕ

inductive Event
  | response (res : Response)
  | chunk (value : Bytes)
  | endOfBody
  | rejected (err : Thrown)
  | handshakeTimeout
  | idleTimeout
  | close

/-- The data of the data lines that end in the buffer. -/
def dataOf (buffer : Text) : List Text := ((JsText.lines newline buffer).filter isData).map payload

namespace Handle

def opened : Handle := ⟨.connecting, false, none, true, false, .start, 0⟩

def close (s : Handle) : Handle := { s with closed := true, handshakeTimer := false, idleTimer := false }

/-- The `finally` clause -/
def finish (s : Handle) : Handle := { s with phase := .ended, handshakeTimer := false, idleTimer := false }

variable (h : Handler)

def after (c : Call) (s : Handle) : Handle := if (h c).closes then s.close else s

/-- What the `catch` clause passes to `onError`. -/
def report (err : Thrown) (s : Handle) : Option Text :=
  if s.closed then none
  else match s.timeoutCode with
    | some code => some code.text
    | none => match err with
      | .error message => some message
      | .abortError | .nullish => none

def fail (err : Thrown) (s : Handle) : Handle × List Made :=
  match s.report err with
  | none => (s.finish, [])
  | some message => ((s.after h (.error message)).finish, [⟨.error message, s.closed⟩])

/-- One data line; the third component is what the callback threw out of the loop. -/
def deliver (raw : Text) (s : Handle) : Handle × List Made × Option Thrown :=
  let first := Call.message s.line false (message raw)
  let s' := after h first { s with line := s.line + 1 }
  match message raw, (h first).throws with
  | .json _, some _ =>
    let second := Call.message s.line true (.text raw)
    (after h second s', [⟨first, s.closed⟩, ⟨second, s'.closed⟩], (h second).throws)
  | _, thrown => (s', [⟨first, s.closed⟩], thrown)

def deliverAll : List Text → Handle → Handle × List Made × Option Thrown
  | [], s => (s, [], none)
  | raw :: raws, s =>
    match deliver h raw s with
    | (s', made, some err) => (s', made, some err)
    | (s', made, none) =>
      let rest := deliverAll raws s'
      (rest.1, made ++ rest.2.1, rest.2.2)

/-- The test of the `while` loop -/
def loop (s : Handle) : Handle := if s.closed then s.finish else s

/-- What follows `reader.read()`. -/
def readChunk (value : Bytes) (s : Handle) : Handle × List Made :=
  let decoded := s.reader.decoder.decode value
  let buffer := s.reader.buffer ++ decoded.1
  let s := { s with idleTimer := true, reader := ⟨decoded.2, JsText.remainder newline buffer⟩ }
  if maxBufferChars < units buffer then fail h (.error (ofString "sse_buffer_limit")) s
  else match deliverAll h (dataOf buffer) s with
    | (s', made, none) => (loop s', made)
    | (s', made, some err) => let failed := fail h err s'; (failed.1, made ++ failed.2)

/-- What follows `fetch`. -/
def readHeaders (res : Response) (s : Handle) : Handle × List Made :=
  let s := { s with handshakeTimer := false }
  match res.refusal with
  | some message => fail h (.error message) s
  | none =>
    let s' := after h .headers s
    match (h .headers).throws with
    | some err => let failed := fail h err s'; (failed.1, ⟨.headers, s.closed⟩ :: failed.2)
    | none => (loop { s' with phase := .reading, idleTimer := true }, [⟨.headers, s.closed⟩])

def step (s : Handle) : Event → Handle × List Made
  | .response res => if s.phase = .connecting then readHeaders h res s else (s, [])
  | .chunk value => if s.phase = .reading then readChunk h value s else (s, [])
  | .endOfBody => if s.phase = .reading then (s.finish, []) else (s, [])
  | .rejected err => if s.phase = .ended then (s, []) else fail h err s
  | .handshakeTimeout =>
    if s.handshakeTimer then ({ s with handshakeTimer := false, timeoutCode := some .handshake }, []) else (s, [])
  | .idleTimeout => if s.idleTimer then ({ s with idleTimer := false, timeoutCode := some .idle }, []) else (s, [])
  | .close => (s.close, [])

def machine : Machine Handle Event (List Made) := ⟨step h⟩

end Handle

/-! ### Clean histories -/

/-- No call comes after `close`, and no data line leads to two calls. -/
def Clean (made : List Made) : Prop :=
  (∀ m ∈ made, m.late = false) ∧ ∀ n, made.countP (fun m => m.call.dataLine = some n) ≤ 1

/-- The data lines of the calls are those from `a` up to `b`. -/
def Within (a b : ℕ) (made : List Made) : Prop := ∀ m ∈ made, ∀ n, m.call.dataLine = some n → a ≤ n ∧ n < b

theorem Within.nil (a b : ℕ) : Within a b [] := fun _ hm => nomatch hm

theorem Within.mono {a a' b b' : ℕ} {made : List Made} (h : Within a b made) (ha : a' ≤ a) (hb : b ≤ b') :
    Within a' b' made := by
  intro m hm n hn
  have := h m hm n hn
  omega

theorem Within.append {a b : ℕ} {x y : List Made} (hx : Within a b x) (hy : Within a b y) : Within a b (x ++ y) := by
  intro m hm
  rcases List.mem_append.mp hm with hm | hm
  · exact hx m hm
  · exact hy m hm

/-- No data line lies behind the calls. -/
theorem Within.countP_eq_zero {a b n : ℕ} {made : List Made} (h : Within a b made) (hn : n < a ∨ b ≤ n) :
    made.countP (fun m => m.call.dataLine = some n) = 0 := by
  rw [List.countP_eq_zero]
  intro m hm hline
  have := h m hm n (of_decide_eq_true hline)
  omega

theorem clean_append {a b c : ℕ} {x y : List Made} (hx : Within a b x) (hy : Within b c y) :
    Clean (x ++ y) ↔ Clean x ∧ Clean y := by
  constructor
  · rintro ⟨hlate, hcount⟩
    refine ⟨⟨fun m hm => hlate m (List.mem_append_left _ hm), fun n => ?_⟩,
      fun m hm => hlate m (List.mem_append_right _ hm), fun n => ?_⟩
    all_goals
      have := hcount n
      rw [List.countP_append] at this
      omega
  · rintro ⟨⟨hlate, hcount⟩, hlate', hcount'⟩
    constructor
    · intro m hm
      rcases List.mem_append.mp hm with hm | hm
      · exact hlate m hm
      · exact hlate' m hm
    · intro n
      rw [List.countP_append]
      have hn := hcount n
      have hn' := hcount' n
      by_cases hb : n < b
      · have := hy.countP_eq_zero (Or.inl hb)
        omega
      · have := hx.countP_eq_zero (Or.inr (Nat.le_of_not_lt hb))
        omega

theorem clean_nil : Clean [] := ⟨fun _ hm => (nomatch hm), fun _ => Nat.zero_le 1⟩

theorem clean_single {m : Made} : Clean [m] ↔ m.late = false := by
  constructor
  · exact fun h => h.1 m (List.mem_singleton.mpr rfl)
  · intro h
    refine ⟨fun m' hm => (List.mem_singleton.mp hm) ▸ h, fun n => ?_⟩
    exact List.countP_le_length

/-! ### One chunk -/

/-- Up to the first of the data lines at which the handler throws or closes: it throws
at no line that is JSON, and it closes at the last of them. -/
def Settles (h : Handler) : ℕ → List Text → Prop
  | _, [] => True
  | n, raw :: raws =>
    let b := h (.message n false (message raw))
    if b.throws.isSome then (message raw).isJson = false
    else if b.closes then raws = []
    else Settles h (n + 1) raws

/-- Nothing is left to be called once `close` has been called, and the callbacks settle
every chunk. -/
def Calm (h : Handler) (s : Handle) : Event → Prop
  | .response res => s.phase = .connecting → res.refusal = none → s.closed = false
  | .chunk value =>
    let buffer := s.reader.buffer ++ (s.reader.decoder.decode value).1
    s.phase = .reading → units buffer ≤ maxBufferChars →
      if s.closed then dataOf buffer = [] else Settles h s.line (dataOf buffer)
  | _ => True

namespace Handle
variable {h : Handler}

@[simp] theorem closed_after (c : Call) (s : Handle) : (after h c s).closed = (s.closed || (h c).closes) := by
  unfold after
  cases (h c).closes <;> simp [close]

@[simp] theorem line_after (c : Call) (s : Handle) : (after h c s).line = s.line := by
  unfold after
  split <;> rfl

theorem line_deliver (raw : Text) (s : Handle) : (deliver h raw s).1.line = s.line + 1 := by
  unfold deliver
  dsimp only
  split <;> simp

theorem within_deliver (raw : Text) (s : Handle) : Within s.line (s.line + 1) (deliver h raw s).2.1 := by
  have hhead (again : Bool) (data : Message) (late : Bool) : Within s.line (s.line + 1) [⟨.message s.line again data, late⟩] := by
    intro m hm n hn
    rw [List.mem_singleton.mp hm] at hn
    have := Option.some.inj hn
    omega
  unfold deliver
  dsimp only
  split
  · exact (hhead _ _ _).append (x := [_]) (hhead _ _ _)
  · exact hhead _ _ _

theorem within_deliverAll (raws : List Text) (s : Handle) :
    s.line ≤ (deliverAll h raws s).1.line ∧ Within s.line (deliverAll h raws s).1.line (deliverAll h raws s).2.1 := by
  induction raws generalizing s with
  | nil => exact ⟨le_rfl, .nil _ _⟩
  | cons raw raws ih =>
    have hline := line_deliver (h := h) raw s
    have hfirst := within_deliver (h := h) raw s
    obtain ⟨hle, hrest⟩ := ih (deliver h raw s).1
    unfold deliverAll
    rcases hd : deliver h raw s with ⟨s', made, _ | err⟩ <;> rw [hd] at hline hfirst hle hrest <;> dsimp only at *
    · refine ⟨by omega, (hfirst.mono le_rfl (by omega)).append (hrest.mono (by omega) le_rfl)⟩
    · exact ⟨by omega, hfirst.mono le_rfl (by omega)⟩

/-- Once `close` has been called, any data line is one too many. -/
theorem clean_deliverAll_closed {s : Handle} (hs : s.closed = true) (raws : List Text) :
    Clean (deliverAll h raws s).2.1 ↔ raws = [] := by
  cases raws with
  | nil => exact ⟨fun _ => rfl, fun _ => clean_nil⟩
  | cons raw raws =>
    have hmem : (⟨.message s.line false (message raw), s.closed⟩ : Made) ∈ (deliverAll h (raw :: raws) s).2.1 := by
      have hfirst : (⟨.message s.line false (message raw), s.closed⟩ : Made) ∈ (deliver h raw s).2.1 := by
        unfold deliver
        dsimp only
        split <;> simp
      unfold deliverAll
      rcases hd : deliver h raw s with ⟨s', made, _ | err⟩ <;> rw [hd] at hfirst
      · exact List.mem_append_left _ hfirst
      · exact hfirst
    refine ⟨fun hc => ?_, fun hnil => nomatch hnil⟩
    have := hc.1 _ hmem
    rw [hs] at this
    cases this

/-- A line that is JSON and at which the handler throws is passed on twice. -/
theorem not_clean_again {s : Handle} {raw : Text} (hjson : (message raw).isJson = true)
    (hthrows : (h (.message s.line false (message raw))).throws.isSome = true) (raws : List Text) :
    ¬ Clean (deliverAll h (raw :: raws) s).2.1 := by
  obtain ⟨err, herr⟩ := Option.isSome_iff_exists.mp hthrows
  have htwice : (deliver h raw s).2.1.countP (fun m => m.call.dataLine = some s.line) = 2 := by
    unfold deliver
    dsimp only
    rw [herr]
    cases hm : message raw with
    | json value => simp [Call.dataLine]
    | done | text => rw [hm] at hjson; cases hjson
  intro hc
  have hle := hc.2 s.line
  unfold deliverAll at hle
  rcases hd : deliver h raw s with ⟨s', made, _ | e⟩ <;> rw [hd] at htwice hle <;> dsimp only at htwice hle
  · rw [List.countP_append] at hle
    omega
  · omega

theorem clean_deliverAll {s : Handle} (hs : s.closed = false) (raws : List Text) :
    Clean (deliverAll h raws s).2.1 ↔ Settles h s.line raws := by
  induction raws generalizing s with
  | nil => exact ⟨fun _ => trivial, fun _ => clean_nil⟩
  | cons raw raws ih =>
    unfold Settles
    dsimp only
    cases hthrows : (h (.message s.line false (message raw))).throws with
    | some err =>
      rw [if_pos (show (some err).isSome = true from rfl)]
      cases hjson : (message raw).isJson with
      | true => exact ⟨fun hc => absurd hc (not_clean_again hjson (by rw [hthrows]; rfl) raws), fun hf => nomatch hf⟩
      | false =>
        have hd : deliver h raw s = (after h (.message s.line false (message raw)) { s with line := s.line + 1 },
            [⟨.message s.line false (message raw), s.closed⟩], some err) := by
          unfold deliver
          dsimp only
          rw [hthrows]
          cases hm : message raw with
          | json value => rw [hm] at hjson; cases hjson
          | done | text => rfl
        unfold deliverAll
        rw [hd]
        exact ⟨fun _ => rfl, fun _ => clean_single.mpr hs⟩
    | none =>
      rw [if_neg (by simp)]
      have hd : deliver h raw s = (after h (.message s.line false (message raw)) { s with line := s.line + 1 },
          [⟨.message s.line false (message raw), s.closed⟩], none) := by
        unfold deliver
        dsimp only
        rw [hthrows]
        cases message raw <;> rfl
      have hfirst := within_deliver (h := h) raw s
      have hrest := (within_deliverAll (h := h) raws (after h (.message s.line false (message raw)) { s with line := s.line + 1 })).2
      unfold deliverAll
      rw [hd] at hfirst ⊢
      rw [line_after] at hrest
      rw [clean_append hfirst hrest, clean_single]
      cases hcloses : (h (.message s.line false (message raw))).closes with
      | true =>
        rw [if_pos rfl, clean_deliverAll_closed (by rw [closed_after, hcloses, Bool.or_true])]
        exact and_iff_right hs
      | false =>
        rw [if_neg Bool.false_ne_true, ih (by rw [closed_after, hcloses, Bool.or_false]; exact hs), line_after]
        exact and_iff_right hs

/-- An error is reported only where `close` has not been called. -/
theorem fail_made (err : Thrown) (s : Handle) (n : ℕ) : Clean (fail h err s).2 ∧ Within n n (fail h err s).2 := by
  unfold fail
  cases hr : s.report err with
  | none => exact ⟨clean_nil, .nil n n⟩
  | some message =>
    have hopen : s.closed = false := by
      unfold report at hr
      split at hr
      · cases hr
      next hc => exact Bool.eq_false_iff.mpr hc
    refine ⟨clean_single.mpr hopen, ?_⟩
    intro m hm k hk
    rw [List.mem_singleton.mp hm] at hk
    cases hk

theorem line_fail (err : Thrown) (s : Handle) : (fail h err s).1.line = s.line := by
  unfold fail
  split
  · rfl
  · exact line_after _ _

theorem line_loop (s : Handle) : (loop s).line = s.line := by
  unfold loop
  split <;> rfl

theorem within_headers (n : ℕ) (late : Bool) : Within n n [⟨.headers, late⟩] := by
  intro m hm k hk
  rw [List.mem_singleton.mp hm] at hk
  cases hk

theorem within_readHeaders (res : Response) (s : Handle) :
    s.line ≤ (readHeaders h res s).1.line ∧ Within s.line (readHeaders h res s).1.line (readHeaders h res s).2 := by
  unfold readHeaders
  dsimp only
  split
  · rw [line_fail]
    exact ⟨le_rfl, (fail_made _ _ s.line).2⟩
  · split
    · dsimp only
      rw [line_fail, line_after]
      exact ⟨le_rfl, Within.append (x := [_]) (within_headers s.line _) (fail_made _ _ s.line).2⟩
    · dsimp only
      rw [line_loop, line_after]
      exact ⟨le_rfl, within_headers s.line _⟩

theorem within_readChunk (value : Bytes) (s : Handle) :
    s.line ≤ (readChunk h value s).1.line ∧ Within s.line (readChunk h value s).1.line (readChunk h value s).2 := by
  have hall := within_deliverAll (h := h) (dataOf (s.reader.buffer ++ (s.reader.decoder.decode value).1))
    { s with
      idleTimer := true
      reader := ⟨(s.reader.decoder.decode value).2, JsText.remainder newline (s.reader.buffer ++ (s.reader.decoder.decode value).1)⟩ }
  unfold readChunk
  dsimp only at hall ⊢
  split
  · rw [line_fail]
    exact ⟨le_rfl, (fail_made _ _ s.line).2⟩
  · split
    next hd =>
      rw [hd] at hall
      rw [line_loop]
      exact hall
    next s' made err hd =>
      rw [hd] at hall
      dsimp only at hall ⊢
      rw [line_fail]
      exact ⟨hall.1, hall.2.append ((fail_made err s' s'.line).2.mono hall.1 le_rfl)⟩

theorem within_step (s : Handle) (e : Event) :
    s.line ≤ (step h s e).1.line ∧ Within s.line (step h s e).1.line (step h s e).2 := by
  cases e with
  | response res =>
    unfold step
    dsimp only
    split
    · exact within_readHeaders res s
    · exact ⟨le_rfl, .nil _ _⟩
  | chunk value =>
    unfold step
    dsimp only
    split
    · exact within_readChunk value s
    · exact ⟨le_rfl, .nil _ _⟩
  | rejected err =>
    unfold step
    dsimp only
    split
    · exact ⟨le_rfl, .nil _ _⟩
    · rw [line_fail]
      exact ⟨le_rfl, (fail_made _ _ s.line).2⟩
  | endOfBody | handshakeTimeout | idleTimeout | close =>
    unfold step
    dsimp only
    try split
    all_goals exact ⟨le_rfl, .nil _ _⟩

theorem clean_readHeaders (res : Response) (s : Handle) :
    Clean (readHeaders h res s).2 ↔ (res.refusal = none → s.closed = false) := by
  unfold readHeaders
  dsimp only
  split
  next message hrefusal =>
    rw [hrefusal]
    exact ⟨fun _ hnone => (nomatch hnone), fun _ => (fail_made _ _ s.line).1⟩
  next hrefusal =>
    rw [hrefusal]
    split
    next err _ =>
      dsimp only
      rw [← List.singleton_append, clean_append (within_headers s.line _) (fail_made err _ s.line).2, clean_single]
      exact ⟨fun hc _ => hc.1, fun hc => ⟨hc rfl, (fail_made err _ s.line).1⟩⟩
    · dsimp only
      rw [clean_single]
      exact ⟨fun hc _ => hc, fun hc => hc rfl⟩

theorem clean_readChunk (value : Bytes) (s : Handle) :
    Clean (readChunk h value s).2 ↔
      (units (s.reader.buffer ++ (s.reader.decoder.decode value).1) ≤ maxBufferChars →
        if s.closed then dataOf (s.reader.buffer ++ (s.reader.decoder.decode value).1) = []
        else Settles h s.line (dataOf (s.reader.buffer ++ (s.reader.decoder.decode value).1))) := by
  let r : Handle := { s with
    idleTimer := true
    reader := ⟨(s.reader.decoder.decode value).2, JsText.remainder newline (s.reader.buffer ++ (s.reader.decoder.decode value).1)⟩ }
  have hall := within_deliverAll (h := h) (dataOf (s.reader.buffer ++ (s.reader.decoder.decode value).1)) r
  have hclean : Clean (deliverAll h (dataOf (s.reader.buffer ++ (s.reader.decoder.decode value).1)) r).2.1 ↔
      if s.closed then dataOf (s.reader.buffer ++ (s.reader.decoder.decode value).1) = []
      else Settles h s.line (dataOf (s.reader.buffer ++ (s.reader.decoder.decode value).1)) := by
    cases hs : s.closed with
    | true =>
      rw [if_pos rfl]
      exact clean_deliverAll_closed (s := r) hs _
    | false =>
      rw [if_neg Bool.false_ne_true]
      exact clean_deliverAll (s := r) hs _
  unfold readChunk
  dsimp only
  split
  next hlimit => exact ⟨fun _ hfits => absurd hfits (Nat.not_le_of_lt hlimit), fun _ => (fail_made _ _ s.line).1⟩
  next hlimit =>
    have hfits := Nat.le_of_not_lt hlimit
    split
    next hd =>
      rw [show deliverAll h _ r = _ from hd] at hclean
      exact hclean.trans ⟨fun hc _ => hc, fun hc => hc hfits⟩
    next s' made err hd =>
      rw [show deliverAll h _ r = _ from hd] at hclean hall
      dsimp only at hall hclean ⊢
      rw [clean_append hall.2 (fail_made err s' s'.line).2, hclean]
      exact ⟨fun hc _ => hc.1, fun hc => ⟨hc hfits, (fail_made err s' s'.line).1⟩⟩

theorem clean_step (s : Handle) (e : Event) : Clean (step h s e).2 ↔ Calm h s e := by
  cases e with
  | response res =>
    unfold step Calm
    dsimp only
    split
    next hphase => exact (clean_readHeaders res s).trans ⟨fun hc _ => hc, fun hc => hc hphase⟩
    next hphase => exact ⟨fun _ hc => absurd hc hphase, fun _ => clean_nil⟩
  | chunk value =>
    unfold step Calm
    dsimp only
    split
    next hphase => exact (clean_readChunk value s).trans ⟨fun hc _ => hc, fun hc => hc hphase⟩
    next hphase => exact ⟨fun _ hc => absurd hc hphase, fun _ => clean_nil⟩
  | rejected err =>
    unfold step
    dsimp only
    split
    · exact ⟨fun _ => trivial, fun _ => clean_nil⟩
    · exact ⟨fun _ => trivial, fun _ => (fail_made _ _ s.line).1⟩
  | endOfBody | handshakeTimeout | idleTimeout | close =>
    unfold step
    dsimp only
    try split
    all_goals exact ⟨fun _ => trivial, fun _ => clean_nil⟩

theorem within_trace (s : Handle) (events : List Event) :
    Within s.line ((machine h).run s events).line ((machine h).trace s events).flatten ∧
      s.line ≤ ((machine h).run s events).line := by
  induction events generalizing s with
  | nil => exact ⟨.nil _ _, le_rfl⟩
  | cons e events ih =>
    have hstep := within_step (h := h) s e
    obtain ⟨hrest, hle⟩ := ih (step h s e).1
    rw [Machine.trace_cons, List.flatten_cons]
    exact ⟨(hstep.2.mono le_rfl hle).append (hrest.mono hstep.1 le_rfl), hstep.1.trans hle⟩

/-- The calls are clean exactly when every step is calm. -/
theorem clean_trace_iff (s : Handle) (events : List Event) :
    Clean ((machine h).trace s events).flatten ↔ (machine h).Along (Calm h) s events := by
  induction events generalizing s with
  | nil => exact ⟨fun _ => trivial, fun _ => clean_nil⟩
  | cons e events ih =>
    have hstep := (within_step (h := h) s e).2
    have hrest := (within_trace (h := h) (step h s e).1 events).1
    rw [Machine.trace_cons, List.flatten_cons]
    calc Clean ((step h s e).2 ++ ((machine h).trace (step h s e).1 events).flatten)
        ↔ Clean (step h s e).2 ∧ Clean ((machine h).trace (step h s e).1 events).flatten := clean_append hstep hrest
      _ ↔ Calm h s e ∧ (machine h).Along (Calm h) (step h s e).1 events := and_congr (clean_step s e) (ih _)

end Handle

/-! ### Callbacks that only listen -/

def Call.data : Call → Option Message
  | .message _ _ data => some data
  | _ => none

def messagesOf (made : List Made) : List Message := made.filterMap fun m => m.call.data

def listening : Handler := fun _ => ⟨false, none⟩

namespace Handle

theorem deliverAll_listening (raws : List Text) (s : Handle) :
    deliverAll listening raws s = ({ s with line := s.line + raws.length }, (deliverAll listening raws s).2.1, none) ∧
      messagesOf (deliverAll listening raws s).2.1 = raws.map message := by
  induction raws generalizing s with
  | nil => exact ⟨rfl, rfl⟩
  | cons raw raws ih =>
    have hd : deliver listening raw s = ({ s with line := s.line + 1 }, [⟨.message s.line false (message raw), s.closed⟩], none) := by
      unfold deliver
      dsimp only [listening]
      cases message raw <;> rfl
    obtain ⟨hrest, hmessages⟩ := ih { s with line := s.line + 1 }
    unfold deliverAll
    rw [hd]
    dsimp only
    rw [hrest]
    refine ⟨?_, ?_⟩
    · simp only [List.length_cons, Nat.add_assoc, Nat.add_comm 1]
    · unfold messagesOf at hmessages ⊢
      rw [List.filterMap_append, hmessages]
      rfl

theorem dataOf_messages (buffer : Text) : (dataOf buffer).map message = (JsText.lines newline buffer).filterMap lineMessage := by
  unfold dataOf
  induction JsText.lines newline buffer with
  | nil => rfl
  | cons l ls ih => cases hdata : isData l <;> simpa [lineMessage, hdata] using ih

theorem trace_ended (chunks : List Bytes) (s : Handle) (hphase : s.phase = .ended) :
    ((machine listening).trace s (chunks.map .chunk)).flatten = [] := by
  induction chunks with
  | nil => rfl
  | cons value chunks ih =>
    have hstep : step listening s (.chunk value) = (s, []) := if_neg (by rw [hphase]; decide)
    rw [List.map_cons, Machine.trace_cons, List.flatten_cons]
    show (step listening s (.chunk value)).2 ++ ((machine listening).trace (step listening s (.chunk value)).1 _).flatten = []
    rw [hstep]
    exact ih

/-- The callbacks get what the loop reads. -/
theorem trace_listening (chunks : List Bytes) (s : Handle) (hphase : s.phase = .reading) (hopen : s.closed = false) :
    messagesOf ((machine listening).trace s (chunks.map .chunk)).flatten = (s.reader.readAll chunks).1 := by
  induction chunks generalizing s with
  | nil => rfl
  | cons value chunks ih =>
    have hstep : step listening s (.chunk value) = readChunk listening value s := if_pos hphase
    have hmessages : messagesOf ((machine listening).trace s ((value :: chunks).map .chunk)).flatten =
        messagesOf (readChunk listening value s).2 ++
          messagesOf ((machine listening).trace (readChunk listening value s).1 (chunks.map .chunk)).flatten := by
      rw [← hstep]
      exact List.filterMap_append
    rw [hmessages]
    by_cases hlimit : maxBufferChars < units (s.reader.buffer ++ (s.reader.decoder.decode value).1)
    · have hread : s.reader.read value = none := if_pos hlimit
      have hfail : readChunk listening value s = fail listening (.error (ofString "sse_buffer_limit")) { s with
          idleTimer := true
          reader := ⟨(s.reader.decoder.decode value).2, JsText.remainder newline (s.reader.buffer ++ (s.reader.decoder.decode value).1)⟩ } :=
        if_pos hlimit
      have hended : (readChunk listening value s).1.phase = .ended ∧ messagesOf (readChunk listening value s).2 = [] := by
        rw [hfail]
        unfold fail
        split <;> exact ⟨rfl, rfl⟩
      rw [trace_ended chunks _ hended.1, hended.2]
      simp only [Reader.readAll, hread]
      rfl
    · obtain ⟨hall, hdata⟩ := deliverAll_listening (dataOf (s.reader.buffer ++ (s.reader.decoder.decode value).1)) { s with
        idleTimer := true
        reader := ⟨(s.reader.decoder.decode value).2, JsText.remainder newline (s.reader.buffer ++ (s.reader.decoder.decode value).1)⟩ }
      have hread : s.reader.read value = some ((JsText.lines newline (s.reader.buffer ++ (s.reader.decoder.decode value).1)).filterMap lineMessage,
          ⟨(s.reader.decoder.decode value).2, JsText.remainder newline (s.reader.buffer ++ (s.reader.decoder.decode value).1)⟩) :=
        if_neg hlimit
      have hchunk : readChunk listening value s = _ := if_neg hlimit
      rw [hall] at hchunk
      dsimp only at hchunk
      rw [hchunk, hdata, dataOf_messages]
      simp only [Reader.readAll, hread]
      rw [ih]
      · unfold loop
        rw [hopen]
        rfl
      · unfold loop
        rw [hopen]
        exact hphase
      · unfold loop
        rw [hopen]
        rfl

end Handle

/-- From the call of `createSSEStream` on, no callback is called after `close` and none
is called twice for one data line exactly when every step is calm. -/
theorem stream_calls_clean_iff (h : Handler) (events : List Event) :
    Clean ((Handle.machine h).trace Handle.opened events).flatten ↔ (Handle.machine h).Along (Calm h) Handle.opened events :=
  Handle.clean_trace_iff Handle.opened events

def okResponse : Response := ⟨true, true, 200, some (ofString "text/event-stream; charset=utf-8")⟩

/-- The stream is closed at its first message. -/
def closesFirst : Handler
  | .message 0 false _ => ⟨true, none⟩
  | _ => ⟨false, none⟩

/-- The first message is refused. -/
def throwsFirst : Handler
  | .message 0 false _ => ⟨false, some (.error (ofString "bad chunk"))⟩
  | _ => ⟨false, none⟩

/-- One chunk with a JSON line and the end mark. -/
def twoLines : List Event := [.response okResponse, .chunk (asciiBytes "data: {}
data: [DONE]
")]

/-- The line behind the one that closes the stream is still passed on, and the line that
the handler refuses is passed on twice. -/
theorem stream_calls_late_and_again :
    ¬ Clean ((Handle.machine closesFirst).trace Handle.opened twoLines).flatten ∧
      ¬ Clean ((Handle.machine throwsFirst).trace Handle.opened twoLines).flatten := by
  have hlate : ((Handle.machine closesFirst).trace Handle.opened twoLines).flatten.any Made.late = true := by
    decide +kernel
  have hagain : ((Handle.machine throwsFirst).trace Handle.opened twoLines).flatten.countP
      (fun m => m.call.dataLine = some 0) = 2 := by
    decide +kernel
  constructor
  · intro hc
    obtain ⟨m, hm, hlate⟩ := List.any_eq_true.mp hlate
    rw [hc.1 m hm] at hlate
    cases hlate
  · intro hc
    have := hc.2 0
    omega

end AgentWorkflow.Desktop.Sse
