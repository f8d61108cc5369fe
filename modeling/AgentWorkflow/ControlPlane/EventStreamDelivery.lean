import AgentWorkflow.ControlPlane.EventStreamNotices

/-!
# No transition is lost

Whatever the interleaving, a transition that the snapshot does not show is put into
the queue of the subscriber: the handler is registered before the snapshot is
read, and a transaction is committed before its handlers are looked up. The queue
is a function of the history, so what it drops is a matter of lists.
-/

namespace AgentWorkflow.ControlPlane.EventStream
open AgentWorkflow.Lib AgentWorkflow.Lib.Calendar

/-! ### What the stream holds -/

namespace Stream

/-- `receive` is registered. -/
def subscribed : Stream → Bool
  | subscribe .release | read | send _ | check | get | unsubscribe .acquire | unsubscribe .body => true
  | _ => false

/-- The snapshot has been read and the stream goes on. -/
def live : Stream → Bool
  | send _ | check | get => true
  | _ => false

def inHand : Stream → List TaskStatus
  | send frame => frame.status.toList
  | _ => []

theorem subscribed_of_live {s : Stream} (h : s.live = true) : s.subscribed = true := by
  cases s <;> simp_all [live, subscribed]

end Stream

/-- The statuses sent to the client or on their way through the stream. -/
def World.shown (w : World) : List TaskStatus :=
  w.sent.filterMap Frame.status ++ w.stream.inHand ++ w.queue.map Envelope.status

/-! ### What one step does -/

section Moves
variable {J : JsonLib} {cfg : Config} {sub : Subscription} {w : World}

inductive StreamMove (sub : Subscription) (w w' : World) : Prop where
  | other (handlers : w'.handlers = w.handlers) (queue : w'.queue = w.queue) (log : w'.log = w.log)
      (shown : w'.shown = w.shown) (live : w'.stream.live = true → w.stream.live = true)
      (subscribed : w'.stream.subscribed = w.stream.subscribed)
  | subscribe (before : w.stream = .subscribe .body) (after : w'.stream = .subscribe .release)
      (handlers : w'.handlers = w.handlers.add sub.channel ()) (queue : w'.queue = w.queue) (log : w'.log = w.log)
      (sent : w'.sent = w.sent)
  | read (r : Task) (row : sub.row w.db = some r) (before : w.stream = .read)
      (after : w'.stream = .send (.snapshot r.id r.status r.updatedAt)) (handlers : w'.handlers = w.handlers)
      (queue : w'.queue = w.queue) (log : w'.log = w.log ++ [.snapshot r.status]) (sent : w'.sent = w.sent)
  | got (e : Envelope) (queue : w.queue = e :: w'.queue) (before : w.stream = .get)
      (after : w'.stream = .send (.event e)) (handlers : w'.handlers = w.handlers)
      (log : w'.log = w.log ++ [.got e]) (sent : w'.sent = w.sent)
  | unsubscribe (before : w.stream = .unsubscribe .body) (after : w'.stream = .unsubscribe .release)
      (handlers : w'.handlers = InMemoryBroker.unsubscribe w.handlers sub.channel ()) (queue : w'.queue = w.queue)
      (log : w'.log = w.log) (sent : w'.sent = w.sent)

theorem advanceStream_frame (sub : Subscription) (w : World) (signal : Signal) :
    (advanceStream sub signal w).db = w.db ∧ (advanceStream sub signal w).requests = w.requests := by
  unfold advanceStream
  split <;> (try split) <;> (try split) <;> (try split) <;> exact ⟨rfl, rfl⟩

theorem advanceStream_move (sub : Subscription) (w : World) (signal : Signal) : StreamMove sub w (advanceStream sub signal w) := by
  have hstay : StreamMove sub w w := .other rfl rfl rfl rfl id rfl
  unfold advanceStream
  cases hs : w.stream with
  | lookup =>
    dsimp only
    split <;> exact .other rfl rfl rfl (by simp [World.shown, hs, Stream.inHand]) (by simp [Stream.live])
      (by simp [hs, Stream.subscribed])
  | subscribe phase =>
    cases phase with
    | acquire =>
      dsimp only
      split
      · exact .other rfl rfl rfl (by simp [World.shown, hs, Stream.inHand]) (by simp [Stream.live])
          (by simp [hs, Stream.subscribed])
      · split
        · exact hstay
        · exact .other rfl rfl rfl (by simp [World.shown, hs, Stream.inHand]) (by simp [Stream.live])
            (by simp [hs, Stream.subscribed])
    | body => exact .subscribe hs rfl rfl rfl rfl rfl
    | release =>
      exact .other rfl rfl rfl (by simp [World.shown, hs, Stream.inHand]) (by simp [Stream.live])
        (by simp [hs, Stream.subscribed])
  | read =>
    dsimp only
    split
    · exact .other rfl rfl rfl (by simp [World.shown, hs, Stream.inHand]) (by simp [Stream.live])
        (by simp [hs, Stream.subscribed])
    next r hr => exact .read r hr hs rfl rfl rfl rfl rfl
  | send frame =>
    refine .other rfl rfl rfl ?_ (by simp [hs, Stream.live]) (by simp [hs, Stream.subscribed])
    cases hf : frame.status <;> simp [World.shown, hs, Stream.inHand, hf]
  | check =>
    dsimp only
    split
    · exact .other rfl rfl rfl (by simp [World.shown, hs, Stream.inHand]) (by simp [Stream.live])
        (by simp [hs, Stream.subscribed])
    · exact .other rfl rfl rfl (by simp [World.shown, hs, Stream.inHand]) (by simp [hs, Stream.live])
        (by simp [hs, Stream.subscribed])
  | get =>
    dsimp only
    split
    · exact .other rfl rfl rfl (by simp [World.shown, hs, Stream.inHand]) (by simp [Stream.live])
        (by simp [hs, Stream.subscribed])
    · split
      · split
        · exact .other rfl rfl rfl (by simp [World.shown, hs, Stream.inHand, Frame.status])
            (by simp [hs, Stream.live]) (by simp [hs, Stream.subscribed])
        · exact hstay
      next e queue hq => exact .got e hq hs rfl rfl rfl rfl
  | unsubscribe phase =>
    cases phase with
    | acquire =>
      dsimp only
      split
      · exact hstay
      · exact .other rfl rfl rfl (by simp [World.shown, hs, Stream.inHand]) (by simp [Stream.live])
          (by simp [hs, Stream.subscribed])
    | body => exact .unsubscribe hs rfl rfl rfl rfl rfl
    | release =>
      exact .other rfl rfl rfl (by simp [World.shown, hs, Stream.inHand]) (by simp [Stream.live])
        (by simp [hs, Stream.subscribed])
  | ended => exact hstay

def Await.isAcquire : Await → Bool
  | acquire _ _ => true
  | _ => false

/-- A step of request `i`: nothing, its next transaction, or its next await. -/
theorem advanceRequest_cases (J : JsonLib) (cfg : Config) (sub : Subscription) (w : World) (i : ℕ) :
    advanceRequest J cfg sub i w = w ∨
      (∃ op ops, w.requests[i]? = some ⟨[], op :: ops⟩ ∧ advanceRequest J cfg sub i w = commit J cfg sub op i ops w) ∨
      ∃ a awaits ops, w.requests[i]? = some ⟨a :: awaits, ops⟩ ∧ (a.isAcquire = true → w.lock = none) ∧
        advanceRequest J cfg sub i w = runAwait a i ⟨awaits, ops⟩ w := by
  unfold advanceRequest
  split
  · exact Or.inl rfl
  next a awaits ops hc =>
    cases hlock : w.lock with
    | none => exact Or.inr (Or.inr ⟨a, awaits, ops, hc, fun _ => rfl, rfl⟩)
    | some r =>
      cases a with
      | acquire notice ticket =>
        left
        simp only [runAwait, hlock]
      | copyHandlers notice ticket => exact Or.inr (Or.inr ⟨_, awaits, ops, hc, by simp [Await.isAcquire], rfl⟩)
      | release => exact Or.inr (Or.inr ⟨_, awaits, ops, hc, by simp [Await.isAcquire], rfl⟩)
      | call envelope ticket => exact Or.inr (Or.inr ⟨_, awaits, ops, hc, by simp [Await.isAcquire], rfl⟩)
  next op ops hc => exact Or.inr (Or.inl ⟨op, ops, hc, rfl⟩)
  · exact Or.inl rfl

end Moves

/-! ### The queue and the history -/

def puts (log : List Entry) : List Envelope :=
  log.filterMap fun
    | .put _ envelope => some envelope
    | _ => none

def deliveries (log : List Entry) : List Envelope :=
  log.filterMap fun
    | .got envelope => some envelope
    | _ => none

@[simp] theorem puts_append (log log' : List Entry) : puts (log ++ log') = puts log ++ puts log' :=
  List.filterMap_append

@[simp] theorem deliveries_append (log log' : List Entry) :
    deliveries (log ++ log') = deliveries log ++ deliveries log' :=
  List.filterMap_append

def replay (queue : List Envelope) : Entry → List Envelope
  | .put _ envelope => DropOldest.push queueSize queue envelope
  | .got _ => queue.tail
  | _ => queue

theorem replay_length_le {queue : List Envelope} (h : queue.length ≤ queueSize) (e : Entry) :
    (replay queue e).length ≤ queueSize := by
  cases e with
  | put _ envelope => exact DropOldest.push_length_le (by decide) h envelope
  | got _ => simp only [replay, List.length_tail]; omega
  | committed _ _ => exact h
  | snapshot _ => exact h

theorem foldl_replay_length_le {queue : List Envelope} (h : queue.length ≤ queueSize) (log : List Entry) :
    (log.foldl replay queue).length ≤ queueSize := by
  induction log generalizing queue with
  | nil => exact h
  | cons e log ih => exact ih (replay_length_le h e)

/-- What is queued was put last. -/
theorem foldl_replay_suffix (log : List Entry) : log.foldl replay [] <:+ puts log := by
  induction log using List.reverseRecOn with
  | nil => exact List.suffix_refl []
  | append_singleton log e ih =>
    rw [List.foldl_append, puts_append]
    cases e with
    | put _ envelope => exact DropOldest.push_suffix ih envelope
    | got _ =>
      rw [show puts [.got _] = [] from rfl, List.append_nil]
      exact (List.tail_suffix _).trans ih
    | committed _ _ =>
      rw [show puts [.committed _ _] = [] from rfl, List.append_nil]
      exact ih
    | snapshot _ =>
      rw [show puts [.snapshot _] = [] from rfl, List.append_nil]
      exact ih

/-- While nothing is delivered, the queue holds the latest of what accumulates. -/
theorem foldl_replay_latest {queue : List Envelope} (hlen : queue.length ≤ queueSize) {log : List Entry}
    (hnone : deliveries log = []) :
    log.foldl replay queue = DropOldest.latest queueSize (queue ++ puts log) := by
  induction log using List.reverseRecOn with
  | nil => simp [puts, DropOldest.latest_of_length_le hlen]
  | append_singleton log e ih =>
    rw [deliveries_append, List.append_eq_nil_iff] at hnone
    rw [List.foldl_append, ih hnone.1, puts_append, ← List.append_assoc]
    cases e with
    | put _ envelope => exact DropOldest.push_latest (by decide) _ envelope
    | got _ => simp [deliveries] at hnone
    | committed _ _ => simp [replay, puts]
    | snapshot _ => simp [replay, puts]

section Runs
variable {J : JsonLib} {cfg : Config} {sub : Subscription} {w : World}

/-- A step adds to the history and moves the queue accordingly. -/
theorem advance_log (ref : Ref) (signal : Signal) :
    ∃ new, (advance J cfg sub ref signal w).log = w.log ++ new ∧
      (advance J cfg sub ref signal w).queue = new.foldl replay w.queue := by
  cases ref with
  | stream =>
    cases advanceStream_move sub w signal with
    | other _ queue log => exact ⟨[], by simp [advance, log], by simp [advance, queue]⟩
    | subscribe _ _ _ queue log => exact ⟨[], by simp [advance, log], by simp [advance, queue]⟩
    | read r _ _ _ _ queue log => exact ⟨_, log, by simp [advance, queue, replay]⟩
    | got e queue _ _ _ log => exact ⟨_, log, by simp [advance, queue, replay]⟩
    | unsubscribe _ _ _ queue log => exact ⟨[], by simp [advance, log], by simp [advance, queue]⟩
  | request i =>
    obtain h | ⟨op, ops, -, h⟩ | ⟨a, awaits, ops, -, hfree, h⟩ := advanceRequest_cases J cfg sub w i
    · exact ⟨[], by simp [advance, h], by simp [advance, h]⟩
    · refine ⟨_, by simp only [advance, h]; rfl, ?_⟩
      simp only [advance, h, commit, transitionEntry]
      split
      · rfl
      · split <;> rfl
    · simp only [advance, h]
      cases a with
      | acquire notice ticket => exact ⟨[], by simp [runAwait, hfree rfl], by simp [runAwait, hfree rfl]⟩
      | copyHandlers notice ticket => exact ⟨[], by simp [runAwait], by simp [runAwait]⟩
      | release => exact ⟨[], by simp [runAwait], by simp [runAwait]⟩
      | call envelope ticket => exact ⟨_, rfl, rfl⟩

theorem step_log (J : JsonLib) (cfg : Config) (sub : Subscription) (w : World) (mode : Mode) (a : Action) :
    ∃ new, (step J cfg sub mode w a).1.log = w.log ++ new ∧
      (step J cfg sub mode w a).1.queue = new.foldl replay w.queue := by
  cases a with
  | spawn route => exact ⟨[], by simp [step], rfl⟩
  | run ref signal =>
    simp only [step]
    split
    · exact ⟨[], by simp, rfl⟩
    · exact advance_log ref signal

theorem run_log (J : JsonLib) (cfg : Config) (sub : Subscription) (mode : Mode) (w : World) (as : List Action) :
    ∃ new, ((machine J cfg sub mode).run w as).log = w.log ++ new ∧
      ((machine J cfg sub mode).run w as).queue = new.foldl replay w.queue := by
  induction as generalizing w with
  | nil => exact ⟨[], by simp, rfl⟩
  | cons a as ih =>
    obtain ⟨new, hlog, hqueue⟩ := step_log J cfg sub w mode a
    obtain ⟨more, hlog', hqueue'⟩ := ih ((machine J cfg sub mode).step w a).1
    refine ⟨new ++ more, ?_, ?_⟩
    · rw [Machine.run_cons, hlog', ← List.append_assoc]
      exact congrArg (· ++ more) hlog
    · rw [Machine.run_cons, hqueue', List.foldl_append]
      exact congrArg (fun q => more.foldl replay q) hqueue

/-- Events that accumulate undelivered push out the oldest, and only those. -/
theorem run_overflow (mode : Mode) (as later : List Action) :
    let w := (machine J cfg sub mode).run World.init as
    let w' := (machine J cfg sub mode).run w later
    deliveries w'.log = deliveries w.log →
      queueSize < w.queue.length + ((puts w'.log).length - (puts w.log).length) →
      w'.queue = DropOldest.latest queueSize (puts w'.log) := by
  intro w w' hnone hmany
  obtain ⟨old, hlog₀, hqueue₀⟩ := run_log J cfg sub mode World.init as
  obtain ⟨new, hlog, hqueue⟩ := run_log J cfg sub mode w later
  have hnew : deliveries new = [] := by
    rw [show w'.log = w.log ++ new from hlog, deliveries_append] at hnone
    simpa using hnone
  have hqueue₁ : w.queue = w.log.foldl replay [] := by
    rw [show w.log = World.init.log ++ old from hlog₀]
    exact hqueue₀
  obtain ⟨front, hfront⟩ := foldl_replay_suffix w.log
  rw [← hqueue₁] at hfront
  have hputs : puts w'.log = front ++ (w.queue ++ puts new) := by
    rw [show w'.log = w.log ++ new from hlog, puts_append, ← List.append_assoc, hfront]
  have hlen : w.queue.length ≤ queueSize := by
    rw [hqueue₁]
    exact foldl_replay_length_le (Nat.zero_le _) _
  rw [show w'.queue = new.foldl replay w.queue from hqueue, foldl_replay_latest hlen hnew, hputs]
  symm
  apply DropOldest.latest_append_of_le
  rw [hputs, ← hfront] at hmany
  simp only [List.length_append] at hmany ⊢
  omega

end Runs

/-! ### Committed transitions -/

/-- The await announces transition `ticket` to the stream's channel. -/
def Await.Announces (channel : Channel) (ticket : ℕ) (status : TaskStatus) : Await → Prop
  | acquire notice n => n = ticket ∧ notice.channel = channel ∧ notice.envelope.status = status
  | copyHandlers notice n => n = ticket ∧ notice.channel = channel ∧ notice.envelope.status = status
  | call envelope n => n = ticket ∧ envelope.status = status
  | release => False

/-- Its publish has not run yet. -/
def Owed (sub : Subscription) (ticket : ℕ) (status : TaskStatus) (requests : List Coroutine) : Prop :=
  ∃ c ∈ requests, ∃ a ∈ c.awaits, a.Announces sub.channel ticket status

def CommittedBeforeSnapshot (ticket : ℕ) (status : TaskStatus) (log : List Entry) : Prop :=
  ∃ before between after shown,
    log = before ++ .committed ticket status :: between ++ .snapshot shown :: after

def Queued (ticket : ℕ) (status : TaskStatus) (log : List Entry) : Prop :=
  ∃ envelope : Envelope, envelope.status = status ∧ .put ticket envelope ∈ log

theorem CommittedBeforeSnapshot.append {ticket : ℕ} {status : TaskStatus} {log : List Entry}
    (h : CommittedBeforeSnapshot ticket status log) (new : List Entry) :
    CommittedBeforeSnapshot ticket status (log ++ new) := by
  obtain ⟨before, between, after, shown, rfl⟩ := h
  exact ⟨before, between, after ++ new, shown, by simp⟩

theorem Queued.append {ticket : ℕ} {status : TaskStatus} {log : List Entry} (h : Queued ticket status log)
    (new : List Entry) : Queued ticket status (log ++ new) := by
  obtain ⟨envelope, hst, hput⟩ := h
  exact ⟨envelope, hst, List.mem_append_left _ hput⟩

structure Delivering (sub : Subscription) (w : World) : Prop where
  db : DbOk w.db
  ops : ∀ c ∈ w.requests, ∀ op ∈ c.transactions, OpOk op
  registered : w.stream.subscribed = true → () ∈ w.handlers.members sub.channel
  kept : w.stream.live = true → ∀ ticket status, .committed ticket status ∈ w.log →
    CommittedBeforeSnapshot ticket status w.log ∨ Queued ticket status w.log ∨ Owed sub ticket status w.requests

theorem delivering_init (sub : Subscription) : Delivering sub World.init := by
  refine ⟨⟨List.nodup_nil, ?_⟩, ?_, ?_, ?_⟩
  all_goals simp [World.init, Db.empty, Stream.subscribed, Stream.live]

section Steps
variable {J : JsonLib} {cfg : Config} {sub : Subscription} {w : World}

/-- One request moves on: what it owed is owed by what is left of it, or was put. -/
theorem Owed.set {ticket : ℕ} {status : TaskStatus} {requests : List Coroutine} {i : ℕ} {c next : Coroutine}
    {D : Prop} (hc : requests[i]? = some c)
    (hnext : ∀ a ∈ c.awaits, a.Announces sub.channel ticket status →
      D ∨ ∃ b ∈ next.awaits, b.Announces sub.channel ticket status)
    (h : Owed sub ticket status requests) : D ∨ Owed sub ticket status (requests.set i next) := by
  obtain ⟨d, hd, a, ha, howes⟩ := h
  obtain ⟨hi, rfl⟩ := List.getElem?_eq_some_iff.mp hc
  obtain ⟨j, hj, rfl⟩ := List.getElem_of_mem hd
  by_cases hij : i = j
  · subst hij
    cases hnext a ha howes with
    | inl hdone => exact Or.inl hdone
    | inr hb =>
      obtain ⟨b, hb, howes'⟩ := hb
      exact Or.inr ⟨next, List.mem_set hi next, b, hb, howes'⟩
  · right
    refine ⟨requests[j], ?_, a, ha, howes⟩
    rw [List.mem_iff_getElem]
    exact ⟨j, by simpa using hj, List.getElem_set_ne hij _⟩

theorem mem_transitionEntry {n ticket : ℕ} {status : TaskStatus} {before after : Option TaskStatus}
    (h : .committed ticket status ∈ transitionEntry n before after) :
    ticket = n ∧ after = some status ∧ before ≠ after := by
  unfold transitionEntry at h
  split at h
  · simp at h
  next st =>
    split at h
    · simp at h
    next hne =>
      simp only [List.mem_singleton, Entry.committed.injEq] at h
      exact ⟨h.1, by rw [h.2], hne⟩

/-- The transaction that changes the status leaves its announcement to be published. -/
theorem commit_owes (hdb : DbOk w.db) {op : Op} (hop : OpOk op) {status : TaskStatus}
    (hafter : sub.status (perform J cfg w.db op).1 = some status)
    (hchange : sub.status w.db ≠ sub.status (perform J cfg w.db op).1) :
    raised (perform J cfg w.db op).2 = false ∧
      ∃ a ∈ (notices w.db op (perform J cfg w.db op).2).map fun n => Await.acquire n w.commits,
        a.Announces sub.channel w.commits status := by
  have hann := perform_announced J cfg sub hdb hop
  have hsub : ':' ∉ sub.taskId := by
    obtain ⟨r, hrow, -⟩ := Option.map_eq_some_iff.mp hafter
    obtain ⟨hr, hid, -⟩ := row_some hrow
    rw [← hid]
    exact hann.uuids r hr
  obtain ⟨n, hn, hch⟩ : ∃ n ∈ notices w.db op (perform J cfg w.db op).2, n.channel = sub.channel := by
    by_contra hnone
    apply hchange
    symm
    apply hann.quiet
    intro n hn hch
    exact hnone ⟨n, hn, hch⟩
  refine ⟨?_, .acquire n w.commits, List.mem_map_of_mem hn, rfl, hch, ?_⟩
  · by_contra hraised
    rw [notices_of_raised (by simpa using hraised)] at hn
    simp at hn
  · have hwrote := hann.wrote hsub n hn hch
    rw [hafter] at hwrote
    exact (Option.some.inj hwrote).symm

theorem commit_delivering (h : Delivering sub w) {op : Op} {ops : List Op} {i : ℕ}
    (hc : w.requests[i]? = some ⟨[], op :: ops⟩) : Delivering sub (commit J cfg sub op i ops w) := by
  have hmem : (⟨[], op :: ops⟩ : Coroutine) ∈ w.requests := List.mem_of_getElem? hc
  have hop : OpOk op := h.ops _ hmem op (List.mem_cons_self ..)
  refine ⟨perform_ok h.db hop, ?_, h.registered, ?_⟩
  · intro c hcm o ho
    obtain hold | rfl := List.mem_or_eq_of_mem_set hcm
    · exact h.ops c hold o ho
    · split at ho
      · simp at ho
      · exact h.ops _ hmem o (List.mem_cons_of_mem _ ho)
  · intro hlive ticket status hlog
    obtain hold | hnew := List.mem_append.mp hlog
    · obtain hseen | hput | howed := h.kept hlive ticket status hold
      · exact Or.inl (hseen.append _)
      · exact Or.inr (Or.inl (hput.append _))
      · right
        right
        exact (Owed.set (D := False) hc (by simp) howed).resolve_left id
    · obtain ⟨rfl, hafter, hchange⟩ := mem_transitionEntry hnew
      obtain ⟨hraised, a, ha, howes⟩ := commit_owes h.db hop hafter hchange
      obtain ⟨hi, -⟩ := List.getElem?_eq_some_iff.mp hc
      refine Or.inr (Or.inr ⟨_, List.mem_set hi _, a, ?_, howes⟩)
      simp only [hraised, Bool.false_eq_true, if_false]
      exact ha

theorem mem_calls {handlers : Registry Channel Unit} {notice : Notice} {ticket : ℕ}
    (h : () ∈ handlers.members notice.channel) : calls handlers notice ticket = [.call notice.envelope ticket] := by
  simp [calls, InMemoryBroker.publish, h]

theorem runAwait_frame (a : Await) (i : ℕ) (rest : Coroutine) (hfree : a.isAcquire = true → w.lock = none) :
    (runAwait a i rest w).db = w.db ∧ (runAwait a i rest w).stream = w.stream ∧
      (runAwait a i rest w).handlers = w.handlers ∧
      ∃ awaits, (runAwait a i rest w).requests = w.requests.set i ⟨awaits, rest.transactions⟩ := by
  cases a with
  | acquire notice ticket => exact ⟨by simp [runAwait, hfree rfl], by simp [runAwait, hfree rfl],
      by simp [runAwait, hfree rfl], .copyHandlers notice ticket :: rest.awaits, by simp [runAwait, hfree rfl]⟩
  | copyHandlers notice ticket => exact ⟨rfl, rfl, rfl, _, rfl⟩
  | release => exact ⟨rfl, rfl, rfl, rest.awaits, rfl⟩
  | call envelope ticket => exact ⟨rfl, rfl, rfl, rest.awaits, rfl⟩

/-- Looking up the handlers passes the announcement on to the call, and the call
puts it into the queue. -/
theorem runAwait_kept (hreg : () ∈ w.handlers.members sub.channel) {a : Await} {i : ℕ} {awaits : List Await}
    {ops : List Op} (hc : w.requests[i]? = some ⟨a :: awaits, ops⟩) (hfree : a.isAcquire = true → w.lock = none)
    {ticket : ℕ} {status : TaskStatus} (howed : Owed sub ticket status w.requests) :
    Queued ticket status (runAwait a i ⟨awaits, ops⟩ w).log ∨
      Owed sub ticket status (runAwait a i ⟨awaits, ops⟩ w).requests := by
  cases a with
  | acquire notice n =>
    simp only [runAwait, hfree rfl]
    apply Owed.set hc _ howed
    intro b hb howes
    right
    obtain rfl | hb := List.mem_cons.mp hb
    · exact ⟨_, List.mem_cons_self .., howes⟩
    · exact ⟨b, List.mem_cons_of_mem _ hb, howes⟩
  | copyHandlers notice n =>
    apply Owed.set hc _ howed
    intro b hb howes
    right
    obtain rfl | hb := List.mem_cons.mp hb
    · obtain ⟨rfl, hch, hst⟩ := howes
      refine ⟨.call notice.envelope n, ?_, rfl, hst⟩
      rw [mem_calls (hch ▸ hreg)]
      simp
    · exact ⟨b, by simp [hb], howes⟩
  | release =>
    apply Owed.set hc _ howed
    intro b hb howes
    obtain rfl | hb := List.mem_cons.mp hb
    · exact howes.elim
    · exact Or.inr ⟨b, hb, howes⟩
  | call envelope n =>
    apply Owed.set hc _ howed
    intro b hb howes
    obtain rfl | hb := List.mem_cons.mp hb
    · obtain ⟨rfl, hst⟩ := howes
      left
      exact ⟨envelope, hst, by simp [runAwait, receive]⟩
    · exact Or.inr ⟨b, hb, howes⟩

theorem runAwait_delivering (h : Delivering sub w) {a : Await} {i : ℕ} {awaits : List Await} {ops : List Op}
    (hc : w.requests[i]? = some ⟨a :: awaits, ops⟩) (hfree : a.isAcquire = true → w.lock = none) :
    Delivering sub (runAwait a i ⟨awaits, ops⟩ w) := by
  obtain ⟨hdb, hstream, hhandlers, left, hrequests⟩ := runAwait_frame (w := w) a i ⟨awaits, ops⟩ hfree
  refine ⟨by rw [hdb]; exact h.db, ?_, ?_, ?_⟩
  · intro c hcm o ho
    rw [hrequests] at hcm
    obtain hold | rfl := List.mem_or_eq_of_mem_set hcm
    · exact h.ops c hold o ho
    · exact h.ops _ (List.mem_of_getElem? hc) o ho
  · rw [hstream, hhandlers]
    exact h.registered
  · rw [hstream]
    intro hlive ticket status hlog
    have hreg := h.registered (Stream.subscribed_of_live hlive)
    have hgrow : ∃ new, (runAwait a i ⟨awaits, ops⟩ w).log = w.log ++ new ∧
        ∀ n st, Entry.committed n st ∉ new := by
      cases a with
      | acquire notice n => exact ⟨[], by simp [runAwait, hfree rfl], by simp⟩
      | copyHandlers notice n => exact ⟨[], by simp [runAwait], by simp⟩
      | release => exact ⟨[], by simp [runAwait], by simp⟩
      | call envelope n => exact ⟨_, rfl, by simp⟩
    obtain ⟨new, hnew, hnone⟩ := hgrow
    rw [hnew] at hlog ⊢
    obtain hold | hmem := List.mem_append.mp hlog
    · obtain hseen | hput | howed := h.kept hlive ticket status hold
      · exact Or.inl (hseen.append _)
      · exact Or.inr (Or.inl (hput.append _))
      · right
        rw [← hnew]
        exact runAwait_kept hreg hc hfree howed
    · exact absurd hmem (hnone ticket status)

theorem advanceStream_delivering (h : Delivering sub w) (signal : Signal) :
    Delivering sub (advanceStream sub signal w) := by
  obtain ⟨hdb, hrequests⟩ := advanceStream_frame sub w signal
  refine ⟨by rw [hdb]; exact h.db, by rw [hrequests]; exact h.ops, ?_, ?_⟩
  · intro hsubd
    cases advanceStream_move sub w signal with
    | other handlers _ _ _ _ subscribed => rw [handlers]; exact h.registered (subscribed ▸ hsubd)
    | subscribe _ _ handlers => rw [handlers]; exact Registry.mem_members_add.mpr (Or.inl ⟨rfl, rfl⟩)
    | read r _ before _ handlers => rw [handlers]; exact h.registered (by rw [before]; rfl)
    | got e _ before _ handlers => rw [handlers]; exact h.registered (by rw [before]; rfl)
    | unsubscribe _ after => rw [after] at hsubd; cases hsubd
  · intro hlive ticket status hlog
    rw [hrequests]
    cases advanceStream_move sub w signal with
    | other _ _ log _ live =>
      rw [log] at hlog ⊢
      exact h.kept (live hlive) ticket status hlog
    | subscribe _ after => rw [after] at hlive; cases hlive
    | read r _ _ _ _ _ log =>
      rw [log] at hlog ⊢
      -- everything committed so far is before this snapshot
      obtain hold | hnew := List.mem_append.mp hlog
      · obtain ⟨before, after, heq⟩ := List.append_of_mem hold
        exact Or.inl ⟨before, after, [], r.status, by rw [heq]⟩
      · simp at hnew
    | got e _ before _ _ log =>
      rw [log] at hlog ⊢
      obtain hold | hnew := List.mem_append.mp hlog
      · obtain hseen | hput | howed := h.kept (by rw [before]; rfl) ticket status hold
        · exact Or.inl (hseen.append _)
        · exact Or.inr (Or.inl (hput.append _))
        · exact Or.inr (Or.inr howed)
      · simp at hnew
    | unsubscribe _ after => rw [after] at hlive; cases hlive

theorem step_delivering (mode : Mode) (w : World) (a : Action) (h : Delivering sub w) :
    Delivering sub (step J cfg sub mode w a).1 := by
  cases a with
  | spawn route =>
    refine ⟨h.db, ?_, h.registered, ?_⟩
    · intro c hc op hop
      obtain hold | hnew := List.mem_append.mp hc
      · exact h.ops c hold op hop
      · rw [List.mem_singleton.mp hnew] at hop
        exact route.transactions_ok op hop
    · intro hlive ticket status hlog
      obtain hseen | hput | ⟨c, hc, howed⟩ := h.kept hlive ticket status hlog
      · exact Or.inl hseen
      · exact Or.inr (Or.inl hput)
      · exact Or.inr (Or.inr ⟨c, List.mem_append_left _ hc, howed⟩)
  | run ref signal =>
    simp only [step]
    split
    · exact h
    · suffices hnext : Delivering sub (advance J cfg sub ref signal w) from
        ⟨hnext.db, hnext.ops, hnext.registered, hnext.kept⟩
      cases ref with
      | stream => exact advanceStream_delivering h signal
      | request i =>
        obtain heq | ⟨op, ops, hc, heq⟩ | ⟨a, awaits, ops, hc, hfree, heq⟩ :=
          advanceRequest_cases J cfg sub w i
        · simp only [advance, heq]
          exact h
        · simp only [advance, heq]
          exact commit_delivering h hc
        · simp only [advance, heq]
          exact runAwait_delivering h hc hfree

end Steps

/-- In any interleaving a transition is seen by the snapshot or put into the queue,
and on overflow the queue is the latest hundred events. -/
theorem no_lost_transition (J : JsonLib) (cfg : Config) (sub : Subscription) (mode : Mode) (as : List Action) :
    let w := (machine J cfg sub mode).run World.init as
    (w.stream.live = true → ∀ ticket status, .committed ticket status ∈ w.log →
      ¬ Owed sub ticket status w.requests →
        CommittedBeforeSnapshot ticket status w.log ∨ Queued ticket status w.log) ∧
    ∀ later, let w' := (machine J cfg sub mode).run w later
      deliveries w'.log = deliveries w.log →
        queueSize < w.queue.length + ((puts w'.log).length - (puts w.log).length) →
          w'.queue = DropOldest.latest queueSize (puts w'.log) := by
  intro w
  refine ⟨?_, run_overflow mode as⟩
  intro hlive ticket status hlog howed
  have h : Delivering sub w :=
    (machine J cfg sub mode).run_invariant (step_delivering mode) World.init as (delivering_init sub)
  obtain hseen | hput | hpending := h.kept hlive ticket status hlog
  · exact Or.inl hseen
  · exact Or.inr hput
  · exact absurd hpending howed

end AgentWorkflow.ControlPlane.EventStream
