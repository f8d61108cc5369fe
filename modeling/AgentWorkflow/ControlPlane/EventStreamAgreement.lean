import AgentWorkflow.ControlPlane.EventStreamDelivery
import AgentWorkflow.ControlPlane.Lease

/-!
# The stream agrees with the database at rest

On the event loop nothing separates a transaction from its publishes: the broker
lock is only held between two steps of the coroutine that runs, so no await of a
publish suspends. What the stream has shown, followed by what the running
coroutine still has to publish, ends with the status in the table.
-/

namespace AgentWorkflow.ControlPlane.EventStream
open AgentWorkflow.Lib AgentWorkflow.Lib.Calendar

/-! ### The coroutine that runs -/

namespace Await

/-- The broker lock is held before this await. -/
def locked : Await → Bool
  | copyHandlers _ _ | release => true
  | _ => false

def isCall : Await → Bool
  | call _ _ => true
  | _ => false

/-- The status this await brings to the stream. -/
def carries (channel : Channel) : Await → Option TaskStatus
  | acquire notice _ | copyHandlers notice _ =>
    if notice.channel = channel then some notice.envelope.status else none
  | release => none
  | call envelope _ => some envelope.status

end Await

namespace Stream

def locked : Stream → Bool
  | subscribe .body | subscribe .release | unsubscribe .body | unsubscribe .release => true
  | _ => false

def entered : Stream → Bool
  | lookup | ended => false
  | _ => true

/-- `receive` has not been registered yet. -/
def fresh : Stream → Bool
  | lookup | subscribe .acquire | subscribe .body => true
  | _ => false

end Stream

def Critical (w : World) : Ref → Prop
  | .stream => w.stream.locked = true
  | .request i => ∃ c, w.requests[i]? = some c ∧ ∃ a ∈ c.awaits.head?, a.locked = true

def afloat (sub : Subscription) (requests : List Coroutine) : List TaskStatus :=
  requests.flatMap fun c => c.awaits.filterMap (Await.carries sub.channel)

/-- What holds of the world whatever runs next. -/
structure Agreeing (sub : Subscription) (w : World) : Prop where
  base : Delivering sub w
  ours : ∀ channel, () ∈ w.handlers.members channel → channel = sub.channel ∧ w.stream.subscribed = true
  named : w.stream.entered = true → ':' ∉ sub.taskId
  silent : w.stream.fresh = true → w.queue = [] ∧ w.sent = [] ∧
    ∀ c ∈ w.requests, ∀ a ∈ c.awaits, a.isCall = false
  agree : w.stream.subscribed = true → ∀ status, (w.shown ++ afloat sub w.requests).getLast? = some status →
    sub.status w.db = some status
  shown : w.stream.live = true → w.shown ≠ []

/-- Only `ref` is in the middle of something. -/
structure Turn (w : World) (ref : Ref) : Prop where
  sole : ∀ i c, w.requests[i]? = some c → c.awaits ≠ [] → ref = .request i
  holder : ∀ r, w.lock = some r → r = ref ∧ Critical w ref

structure Settled (sub : Subscription) (w : World) : Prop where
  agreeing : Agreeing sub w
  turn : ∀ ref, w.current = none ∨ w.current = some ref → Turn w ref

theorem settled_init (sub : Subscription) : Settled sub World.init := by
  refine ⟨⟨delivering_init sub, ?_, ?_, ?_, ?_, ?_⟩, fun ref _ => ⟨?_, ?_⟩⟩
  all_goals simp [World.init, Stream.entered, Stream.subscribed, Stream.live]

section Idle
variable {sub : Subscription} {w : World} {ref : Ref}

theorem Turn.lock_free (h : Turn w ref) (hcrit : ¬ Critical w ref) : w.lock = none := by
  cases hl : w.lock with
  | none => rfl
  | some r => exact absurd (h.holder r hl).2 hcrit

theorem flatMap_of_idle {α β : Type} (f : α → List β) {l : List α} {i : ℕ} {x : α} (hx : l[i]? = some x)
    (h : ∀ j y, l[j]? = some y → j ≠ i → f y = []) : l.flatMap f = f x := by
  induction l generalizing i with
  | nil => simp at hx
  | cons a l ih =>
    rw [List.flatMap_cons]
    cases i with
    | zero =>
      have hrest : l.flatMap f = [] := by
        apply List.flatMap_eq_nil_iff.mpr
        intro y hy
        obtain ⟨j, hj⟩ := List.getElem?_of_mem hy
        exact h (j + 1) y (by simpa using hj) (by simp)
      rw [hrest, List.append_nil]
      simp only [List.getElem?_cons_zero, Option.some.injEq] at hx
      rw [hx]
    | succ i =>
      rw [h 0 a (by simp) (by simp), List.nil_append]
      apply ih (by simpa using hx)
      intro j y hy hj
      exact h (j + 1) y (by simpa using hy) (by omega)

/-- With the others idle, what is afloat is what the running coroutine carries. -/
theorem Turn.afloat_request {i : ℕ} {c : Coroutine} (h : Turn w (.request i)) (hc : w.requests[i]? = some c) :
    afloat sub w.requests = c.awaits.filterMap (Await.carries sub.channel) := by
  apply flatMap_of_idle _ hc
  intro j d hd hj
  have hnil : d.awaits = [] := by
    by_contra hne
    have hij := h.sole j d hd hne
    simp only [Ref.request.injEq] at hij
    exact hj hij.symm
  rw [hnil]
  rfl

theorem Turn.afloat_stream (h : Turn w .stream) (sub : Subscription) : afloat sub w.requests = [] := by
  apply List.flatMap_eq_nil_iff.mpr
  intro c hc
  obtain ⟨j, hj⟩ := List.getElem?_of_mem hc
  have hnil : c.awaits = [] := by
    by_contra hne
    cases h.sole j c hj hne
  rw [hnil]
  rfl

/-- A request moved on: the others are as idle as before. -/
theorem Turn.sole_set {i : ℕ} {next : Coroutine} (h : Turn w (.request i)) {j : ℕ} {c : Coroutine}
    (hc : (w.requests.set i next)[j]? = some c) (hne : c.awaits ≠ []) : Ref.request i = .request j := by
  by_cases hij : i = j
  · rw [hij]
  · rw [List.getElem?_set_ne hij] at hc
    exact h.sole j c hc hne

/-- Who is in the middle of a publish or holds the lock is not suspended. -/
theorem Turn.settled {next : World} (h : Turn next ref) (hagree : Agreeing sub next) :
    Settled sub { next with current := if suspended next ref then none else some ref } := by
  have hcrit : Critical next ref → suspended next ref = false := by
    intro hcrit
    cases ref with
    | stream =>
      have hl : next.stream.locked = true := hcrit
      unfold suspended
      cases hs : next.stream with
      | subscribe phase => cases phase <;> simp_all [Stream.locked]
      | unsubscribe phase => cases phase <;> simp_all [Stream.locked]
      | lookup | read | send _ | check | get | ended => simp_all [Stream.locked]
    | request i =>
      obtain ⟨⟨awaits, ops⟩, hc, a, ha, hl⟩ := hcrit
      cases awaits with
      | nil => simp at ha
      | cons b awaits =>
        simp only [List.head?_cons, Option.mem_some_iff] at ha
        subst ha
        unfold suspended
        cases b <;> simp_all [Await.locked]
  have hbusy : ∀ i c, next.requests[i]? = some c → c.awaits ≠ [] → ref = .request i ∧ suspended next ref = false := by
    intro i c hc hne
    have href := h.sole i c hc hne
    refine ⟨href, ?_⟩
    by_cases hlocked : Critical next ref
    · exact hcrit hlocked
    · have hfree := h.lock_free hlocked
      subst href
      obtain ⟨awaits, ops⟩ := c
      cases awaits with
      | nil => exact absurd rfl hne
      | cons b awaits =>
        unfold suspended
        cases b <;> simp [hc, hfree]
  refine ⟨⟨⟨hagree.base.db, hagree.base.ops, hagree.base.registered, hagree.base.kept⟩, hagree.ours, hagree.named,
    hagree.silent, hagree.agree, hagree.shown⟩, ?_⟩
  intro r hr
  constructor
  · intro i c hc hne
    obtain ⟨rfl, hsusp⟩ := hbusy i c hc hne
    have hrun : Ref.request i = r := by simpa [hsusp] using hr
    exact hrun.symm
  · intro r' hr'
    obtain ⟨rfl, hlocked⟩ := h.holder r' hr'
    have hr'' : r' = r := by simpa [hcrit hlocked] using hr
    subst hr''
    exact ⟨rfl, hlocked⟩

end Idle

/-! ### Steps of the stream -/

section Stream
variable {sub : Subscription} {w : World} (signal : Signal)

theorem advanceStream_lock (sub : Subscription) (h : w.lock = none ∨ (w.lock = some .stream ∧ w.stream.locked = true)) :
    (advanceStream sub signal w).lock = none ∨
      ((advanceStream sub signal w).lock = some .stream ∧ (advanceStream sub signal w).stream.locked = true) := by
  unfold advanceStream
  cases hs : w.stream with
  | subscribe phase =>
    cases phase with
    | acquire =>
      have hfree : w.lock = none := by simpa [hs, Stream.locked] using h
      dsimp only
      split
      · exact Or.inl hfree
      · simp [hfree, Stream.locked]
    | body =>
      simp only [hs, Stream.locked, and_true] at h
      exact h.imp id fun hl => ⟨hl, rfl⟩
    | release => exact Or.inl rfl
  | unsubscribe phase =>
    cases phase with
    | acquire =>
      have hfree : w.lock = none := by simpa [hs, Stream.locked] using h
      simp [hfree, Stream.locked]
    | body =>
      simp only [hs, Stream.locked, and_true] at h
      exact h.imp id fun hl => ⟨hl, rfl⟩
    | release => exact Or.inl rfl
  | lookup | read | send _ | check | get | ended =>
    have hfree : w.lock = none := by simpa [hs, Stream.locked] using h
    left
    dsimp only
    (try split) <;> (try split) <;> (try split) <;> exact hfree

theorem advanceStream_entered (h : (advanceStream sub signal w).stream.entered = true) :
    w.stream.entered = true ∨ ∃ r, sub.row w.db = some r := by
  unfold advanceStream at h
  cases hs : w.stream with
  | lookup =>
    simp only [hs] at h
    split at h
    · simp [Stream.entered] at h
    next r hr => exact Or.inr ⟨r, hr⟩
  | ended =>
    rw [hs] at h
    simp [hs, Stream.entered] at h
  | subscribe _ | read | send _ | check | get | unsubscribe _ => exact Or.inl rfl

theorem advanceStream_fresh (h : (advanceStream sub signal w).stream.fresh = true) :
    w.stream.fresh = true ∧ (advanceStream sub signal w).queue = w.queue ∧
      (advanceStream sub signal w).sent = w.sent := by
  unfold advanceStream at h ⊢
  cases hs : w.stream with
  | lookup =>
    simp only
    refine ⟨rfl, ?_⟩
    split <;> exact ⟨rfl, rfl⟩
  | subscribe phase =>
    cases phase with
    | acquire =>
      simp only
      refine ⟨rfl, ?_⟩
      split
      · exact ⟨rfl, rfl⟩
      · split <;> exact ⟨rfl, rfl⟩
    | body => simp [hs, Stream.fresh] at h
    | release => simp [hs, Stream.fresh] at h
  | unsubscribe phase =>
    cases phase <;> simp only [hs] at h <;> (try split at h) <;> simp_all [Stream.fresh]
  | read | send _ | check | get | ended =>
    simp only [hs] at h
    (try split at h) <;> (try split at h) <;> (try split at h) <;> simp_all [Stream.fresh]

theorem advanceStream_turn (h : Turn w .stream) : Turn (advanceStream sub signal w) .stream := by
  constructor
  · rw [(advanceStream_frame sub _ signal).2]
    exact h.sole
  · intro r hr
    have hlock : w.lock = none ∨ (w.lock = some .stream ∧ w.stream.locked = true) := by
      cases hl : w.lock with
      | none => exact Or.inl rfl
      | some r =>
        obtain ⟨rfl, hcrit⟩ := h.holder r hl
        exact Or.inr ⟨rfl, hcrit⟩
    obtain hnone | ⟨hsome, hcrit⟩ := advanceStream_lock signal sub hlock
    · rw [hnone] at hr
      cases hr
    · rw [hsome] at hr
      cases hr
      exact ⟨rfl, hcrit⟩

theorem mem_unsubscribe {handlers : Registry Channel Unit} {channel channel' : Channel} :
    () ∈ (InMemoryBroker.unsubscribe handlers channel ()).members channel' ↔
      () ∈ handlers.members channel' ∧ channel' ≠ channel := by
  unfold InMemoryBroker.unsubscribe
  split
  next hnone =>
    have hempty : handlers.members channel = ∅ := by simp [Registry.members, hnone]
    constructor
    · intro hmem
      refine ⟨hmem, ?_⟩
      rintro rfl
      simp [hempty] at hmem
    · exact fun hmem => hmem.1
  next hsome =>
    rw [Registry.mem_members_remove]
    simp

theorem advanceStream_agreeing (h : Agreeing sub w) (hturn : Turn w .stream) :
    Agreeing sub (advanceStream sub signal w) := by
  obtain ⟨hdb, hrequests⟩ := advanceStream_frame sub w signal
  have hidle := hturn.afloat_stream sub
  refine ⟨advanceStream_delivering h.base signal, ?_, ?_, ?_, ?_, ?_⟩
  · intro channel hmem
    cases advanceStream_move sub w signal with
    | other handlers _ _ _ _ subscribed =>
      rw [handlers] at hmem
      rw [subscribed]
      exact h.ours channel hmem
    | subscribe _ after handlers =>
      rw [handlers] at hmem
      rw [after]
      obtain ⟨hch, -⟩ | hold := Registry.mem_members_add.mp hmem
      · exact ⟨hch, rfl⟩
      · exact ⟨(h.ours channel hold).1, rfl⟩
    | read r _ _ after handlers =>
      rw [handlers] at hmem
      rw [after]
      exact ⟨(h.ours channel hmem).1, rfl⟩
    | got e _ _ after handlers =>
      rw [handlers] at hmem
      rw [after]
      exact ⟨(h.ours channel hmem).1, rfl⟩
    | unsubscribe _ _ handlers =>
      rw [handlers, mem_unsubscribe] at hmem
      exact absurd (h.ours channel hmem.1).1 hmem.2
  · intro hentered
    obtain hold | ⟨r, hrow⟩ := advanceStream_entered signal hentered
    · exact h.named hold
    · obtain ⟨hr, hid, -⟩ := row_some hrow
      rw [← hid]
      exact h.base.db.uuids r hr
  · intro hfresh
    obtain ⟨hold, hqueue, hsent⟩ := advanceStream_fresh signal hfresh
    rw [hqueue, hsent, hrequests]
    exact h.silent hold
  · rw [hrequests, hidle, List.append_nil, hdb]
    have hagree := h.agree
    rw [hidle, List.append_nil] at hagree
    intro hsubd status hlast
    cases advanceStream_move sub w signal with
    | other _ _ _ shown _ subscribed =>
      rw [shown] at hlast
      exact hagree (subscribed ▸ hsubd) status hlast
    | subscribe before after _ queue _ sent =>
      -- nothing can have been queued before the handler is registered
      obtain ⟨hqueue, hsent, -⟩ := h.silent (by rw [before]; rfl)
      simp [World.shown, queue, sent, after, hqueue, hsent, Stream.inHand] at hlast
    | read r row before after _ queue _ sent =>
      have hrow : sub.status w.db = some r.status := by rw [Subscription.status, row]; rfl
      rw [World.shown, after, queue, List.getLast?_append] at hlast
      cases hq : (w.queue.map Envelope.status).getLast? with
      | none =>
        rw [hq, Option.none_or, sent, Stream.inHand, Frame.status, List.getLast?_append] at hlast
        rw [hrow]
        simpa using hlast
      | some last =>
        rw [hq, Option.some_or] at hlast
        rw [← hlast]
        apply hagree (by rw [before]; rfl)
        rw [World.shown, List.getLast?_append, hq, Option.some_or]
    | got e queue before after _ _ sent =>
      apply hagree (by rw [before]; rfl)
      rw [← hlast]
      simp [World.shown, queue, sent, before, after, Stream.inHand, Frame.status]
    | unsubscribe _ after => rw [after] at hsubd; cases hsubd
  · intro hlive
    cases advanceStream_move sub w signal with
    | other _ _ _ shown live => rw [shown]; exact h.shown (live hlive)
    | subscribe _ after => rw [after] at hlive; cases hlive
    | read r _ _ after => simp [World.shown, after, Stream.inHand, Frame.status]
    | got e _ _ after => simp [World.shown, after, Stream.inHand, Frame.status]
    | unsubscribe _ after => rw [after] at hlive; cases hlive

end Stream

/-! ### Steps of a request -/

section Request
variable {J : JsonLib} {cfg : Config} {sub : Subscription} {w : World} {i : ℕ} {ops : List Op}

theorem not_critical {c : Coroutine} (hc : w.requests[i]? = some c) (hfree : ∀ a ∈ c.awaits.head?, a.locked = false) :
    ¬ Critical w (.request i) := by
  rintro ⟨d, hd, a, ha, hl⟩
  rw [hc] at hd
  cases hd
  rw [hfree a ha] at hl
  cases hl

theorem commit_turn (J : JsonLib) (cfg : Config) (sub : Subscription) (h : Turn w (.request i)) {op : Op} (hc : w.requests[i]? = some ⟨[], op :: ops⟩) :
    Turn (commit J cfg sub op i ops w) (.request i) := by
  constructor
  · intro j c hj hne
    exact h.sole_set hj hne
  · intro r hr
    have hnone : w.lock = none := h.lock_free (not_critical hc (by simp))
    rw [show (commit J cfg sub op i ops w).lock = w.lock from rfl, hnone] at hr
    cases hr

theorem carries_notices (ns : List Notice) (ticket : ℕ) (channel : Channel) :
    (ns.map fun n => Await.acquire n ticket).filterMap (Await.carries channel) =
      (ns.filter fun n => decide (n.channel = channel)).map fun n => n.envelope.status := by
  induction ns with
  | nil => rfl
  | cons n ns ih =>
    by_cases hch : n.channel = channel
    · simp [Await.carries, hch, ← ih]
    · simp [Await.carries, hch, ← ih]

theorem commit_agreeing (h : Agreeing sub w) (hturn : Turn w (.request i)) {op : Op}
    (hc : w.requests[i]? = some ⟨[], op :: ops⟩) : Agreeing sub (commit J cfg sub op i ops w) := by
  have hop : OpOk op := h.base.ops _ (List.mem_of_getElem? hc) op (List.mem_cons_self ..)
  have hann := perform_announced J cfg sub h.base.db hop
  have hi := (List.getElem?_eq_some_iff.mp hc).1
  let next : Coroutine := if raised (perform J cfg w.db op).2 then ⟨[], []⟩ else
    ⟨(notices w.db op (perform J cfg w.db op).2).map fun n => .acquire n w.commits, ops⟩
  have hnext : (commit J cfg sub op i ops w).requests = w.requests.set i next := rfl
  have hawaits : next.awaits = (notices w.db op (perform J cfg w.db op).2).map fun n => .acquire n w.commits := by
    simp only [next]
    split
    next hraised => rw [notices_of_raised hraised]; rfl
    · rfl
  refine ⟨commit_delivering h.base hc, h.ours, h.named, ?_, ?_, h.shown⟩
  · intro hfresh
    obtain ⟨hqueue, hsent, hcalls⟩ := h.silent hfresh
    refine ⟨hqueue, hsent, ?_⟩
    intro c hcm a ha
    obtain hold | rfl := List.mem_or_eq_of_mem_set hcm
    · exact hcalls c hold a ha
    · rw [show (_ : Coroutine).awaits = _ from hawaits] at ha
      obtain ⟨n, -, rfl⟩ := List.mem_map.mp ha
      rfl
  · intro hsubd status hlast
    have hsub : ':' ∉ sub.taskId := by
      apply h.named
      change w.stream.subscribed = true at hsubd
      cases hs : w.stream <;> simp_all [Stream.subscribed, Stream.entered]
    have hbefore : afloat sub w.requests = [] := by rw [hturn.afloat_request hc]; rfl
    have hafter : afloat sub (commit J cfg sub op i ops w).requests =
        ((notices w.db op (perform J cfg w.db op).2).filter fun n => decide (n.channel = sub.channel)).map
          fun n => n.envelope.status := by
      rw [(commit_turn J cfg sub hturn hc).afloat_request
        (by rw [hnext, List.getElem?_set_self hi]), hawaits, carries_notices]
    rw [show (commit J cfg sub op i ops w).shown = w.shown from rfl, hafter, List.getLast?_append] at hlast
    change sub.status (perform J cfg w.db op).1 = some status
    cases hmine : (((notices w.db op (perform J cfg w.db op).2).filter fun n => decide (n.channel = sub.channel)).map
        fun n => n.envelope.status).getLast? with
    | none =>
      -- nothing is announced on the channel, so the status is the old one
      rw [hmine, Option.none_or] at hlast
      rw [hann.quiet, h.agree hsubd status (by rw [hbefore, List.append_nil]; exact hlast)]
      intro n hn hch
      have hnil := List.getLast?_eq_none_iff.mp hmine
      rw [List.map_eq_nil_iff, List.filter_eq_nil_iff] at hnil
      exact hnil n hn (decide_eq_true hch)
    | some last =>
      rw [hmine, Option.some_or] at hlast
      cases hlast
      obtain ⟨n, hn, rfl⟩ := List.mem_map.mp (List.mem_of_getLast? hmine)
      obtain ⟨hn, hch⟩ := List.mem_filter.mp hn
      exact hann.wrote hsub n hn (of_decide_eq_true hch)

theorem runAwait_turn (h : Turn w (.request i)) {a : Await} {awaits : List Await}
    (hc : w.requests[i]? = some ⟨a :: awaits, ops⟩) (hfree : a.isAcquire = true → w.lock = none) :
    Turn (runAwait a i ⟨awaits, ops⟩ w) (.request i) := by
  have hi := (List.getElem?_eq_some_iff.mp hc).1
  constructor
  · obtain ⟨-, -, -, left, hrequests⟩ := runAwait_frame (w := w) a i ⟨awaits, ops⟩ hfree
    intro j c hj hne
    rw [hrequests] at hj
    exact h.sole_set hj hne
  · intro r hr
    cases a with
    | acquire notice ticket =>
      simp only [runAwait, hfree rfl, Option.some.injEq] at hr ⊢
      refine ⟨hr.symm, _, List.getElem?_set_self hi, ?_⟩
      simp [Await.locked]
    | copyHandlers notice ticket =>
      refine ⟨(h.holder r hr).1, _, List.getElem?_set_self hi, ?_⟩
      simp [Await.locked]
    | release => cases hr
    | call envelope ticket =>
      have hnone : w.lock = none := h.lock_free (not_critical hc (by simp [Await.locked]))
      rw [show (runAwait (.call envelope ticket) i ⟨awaits, ops⟩ w).lock = w.lock from rfl, hnone] at hr
      cases hr

/-- What the coroutine carries, and what the step leaves of it. -/
theorem runAwait_afloat (sub : Subscription) (h : Turn w (.request i)) {a : Await} {awaits left : List Await}
    (hc : w.requests[i]? = some ⟨a :: awaits, ops⟩) (hfree : a.isAcquire = true → w.lock = none)
    (hleft : (runAwait a i ⟨awaits, ops⟩ w).requests = w.requests.set i ⟨left, ops⟩) :
    afloat sub w.requests = (a :: awaits).filterMap (Await.carries sub.channel) ∧
      afloat sub (runAwait a i ⟨awaits, ops⟩ w).requests = left.filterMap (Await.carries sub.channel) := by
  have hi := (List.getElem?_eq_some_iff.mp hc).1
  refine ⟨h.afloat_request hc, ?_⟩
  exact (runAwait_turn h hc hfree).afloat_request (by rw [hleft, List.getElem?_set_self hi])

theorem not_registered_of_fresh (h : Agreeing sub w) (hfresh : w.stream.fresh = true) (channel : Channel) :
    () ∉ w.handlers.members channel := by
  intro hmem
  have hsubd := (h.ours channel hmem).2
  cases hs : w.stream with
  | subscribe phase => cases phase <;> simp_all [Stream.fresh, Stream.subscribed]
  | lookup | read | send _ | check | get | unsubscribe _ | ended => simp_all [Stream.fresh, Stream.subscribed]

theorem calls_of_notMem {handlers : Registry Channel Unit} {notice : Notice} {ticket : ℕ}
    (h : () ∉ handlers.members notice.channel) : calls handlers notice ticket = [] := by
  simp [calls, InMemoryBroker.publish, h]

/-- Looking up the handlers keeps what is carried to the subscriber. -/
theorem carries_calls (h : Agreeing sub w) (hsubd : w.stream.subscribed = true) (notice : Notice) (ticket : ℕ) :
    (calls w.handlers notice ticket).filterMap (Await.carries sub.channel) =
      [Await.copyHandlers notice ticket].filterMap (Await.carries sub.channel) := by
  by_cases hch : notice.channel = sub.channel
  · have hreg := h.base.registered hsubd
    rw [mem_calls (hch ▸ hreg)]
    simp [Await.carries, hch]
  · have hnot : () ∉ w.handlers.members notice.channel := fun hmem => hch (h.ours _ hmem).1
    rw [calls_of_notMem hnot]
    simp [Await.carries, hch]

theorem runAwait_silent (h : Agreeing sub w) {a : Await} {awaits : List Await}
    (hc : w.requests[i]? = some ⟨a :: awaits, ops⟩) (hfree : a.isAcquire = true → w.lock = none)
    (hfresh : w.stream.fresh = true) :
    (runAwait a i ⟨awaits, ops⟩ w).queue = [] ∧ (runAwait a i ⟨awaits, ops⟩ w).sent = [] ∧
      ∀ c ∈ (runAwait a i ⟨awaits, ops⟩ w).requests, ∀ b ∈ c.awaits, b.isCall = false := by
  obtain ⟨hqueue, hsent, hcalls⟩ := h.silent hfresh
  have hmem : (⟨a :: awaits, ops⟩ : Coroutine) ∈ w.requests := List.mem_of_getElem? hc
  have hold : ∀ b ∈ awaits, b.isCall = false := fun b hb => hcalls _ hmem b (List.mem_cons_of_mem _ hb)
  have hset : ∀ left : List Await, (∀ b ∈ left, b.isCall = false) →
      ∀ c ∈ w.requests.set i ⟨left, ops⟩, ∀ b ∈ c.awaits, b.isCall = false := by
    intro left hleft c hcm b hb
    obtain hcold | rfl := List.mem_or_eq_of_mem_set hcm
    · exact hcalls c hcold b hb
    · exact hleft b hb
  cases a with
  | acquire notice ticket =>
    simp only [runAwait, hfree rfl]
    refine ⟨hqueue, hsent, hset _ ?_⟩
    intro b hb
    obtain rfl | hb := List.mem_cons.mp hb
    · rfl
    · exact hold b hb
  | copyHandlers notice ticket =>
    refine ⟨hqueue, hsent, hset _ ?_⟩
    rw [calls_of_notMem (not_registered_of_fresh h hfresh _)]
    intro b hb
    obtain rfl | hb := List.mem_cons.mp hb
    · rfl
    · exact hold b hb
  | release => exact ⟨hqueue, hsent, hset _ hold⟩
  | call envelope ticket =>
    have hcall := hcalls _ hmem _ (List.mem_cons_self ..)
    cases hcall

/-- What is shown and afloat keeps its end: an announcement only moves on. -/
theorem runAwait_last (h : Agreeing sub w) (hturn : Turn w (.request i)) {a : Await} {awaits : List Await}
    (hc : w.requests[i]? = some ⟨a :: awaits, ops⟩) (hfree : a.isAcquire = true → w.lock = none)
    (hsubd : w.stream.subscribed = true) :
    ((runAwait a i ⟨awaits, ops⟩ w).shown ++ afloat sub (runAwait a i ⟨awaits, ops⟩ w).requests).getLast? =
      (w.shown ++ afloat sub w.requests).getLast? := by
  cases a with
  | acquire notice ticket =>
    have hleft : (runAwait (.acquire notice ticket) i ⟨awaits, ops⟩ w).requests =
        w.requests.set i ⟨.copyHandlers notice ticket :: awaits, ops⟩ := by simp only [runAwait, hfree rfl]
    obtain ⟨hbefore, hafter⟩ := runAwait_afloat sub hturn hc hfree hleft
    rw [hbefore, hafter]
    have hshown : (runAwait (.acquire notice ticket) i ⟨awaits, ops⟩ w).shown = w.shown := by
      simp only [runAwait, hfree rfl, World.shown]
    rw [hshown]
    rfl
  | copyHandlers notice ticket =>
    obtain ⟨hbefore, hafter⟩ := runAwait_afloat sub hturn hc hfree rfl
    rw [hbefore, hafter]
    have hcarried : (.release :: (calls w.handlers notice ticket ++ awaits)).filterMap (Await.carries sub.channel) =
        (.copyHandlers notice ticket :: awaits).filterMap (Await.carries sub.channel) := by
      rw [List.filterMap_cons_none rfl, List.filterMap_append, carries_calls h hsubd, ← List.filterMap_append]
      rfl
    rw [hcarried]
    rfl
  | release =>
    obtain ⟨hbefore, hafter⟩ := runAwait_afloat sub hturn hc hfree rfl
    rw [hbefore, hafter]
    rfl
  | call envelope ticket =>
    obtain ⟨hbefore, hafter⟩ := runAwait_afloat sub hturn hc hfree rfl
    rw [hbefore, hafter]
    have hpush : ((DropOldest.push queueSize w.queue envelope).map Envelope.status).getLast? = some envelope.status := by
      rw [List.getLast?_map, DropOldest.push_getLast?]
      rfl
    simp only [World.shown, runAwait, receive, List.getLast?_append, hpush, List.filterMap_cons, Await.carries,
      Option.some_or]
    rw [← List.singleton_append, List.getLast?_append, List.getLast?_singleton]
    cases (awaits.filterMap (Await.carries sub.channel)).getLast? with
    | none => rfl
    | some last => rfl

theorem runAwait_agreeing (h : Agreeing sub w) (hturn : Turn w (.request i)) {a : Await} {awaits : List Await}
    (hc : w.requests[i]? = some ⟨a :: awaits, ops⟩) (hfree : a.isAcquire = true → w.lock = none) :
    Agreeing sub (runAwait a i ⟨awaits, ops⟩ w) := by
  obtain ⟨hdb, hstream, hhandlers, -⟩ := runAwait_frame (w := w) a i ⟨awaits, ops⟩ hfree
  refine ⟨runAwait_delivering h.base hc hfree, ?_, ?_, ?_, ?_, ?_⟩
  · rw [hhandlers, hstream]
    exact h.ours
  · rw [hstream]
    exact h.named
  · rw [hstream]
    exact runAwait_silent h hc hfree
  · rw [hstream, hdb]
    intro hsubd status hlast
    rw [runAwait_last h hturn hc hfree hsubd] at hlast
    exact h.agree hsubd status hlast
  · rw [hstream]
    intro hlive
    have hshown := h.shown hlive
    cases a with
    | acquire notice ticket => simpa [runAwait, hfree rfl, World.shown] using hshown
    | copyHandlers notice ticket => exact hshown
    | release => exact hshown
    | call envelope ticket => simp [World.shown, runAwait, receive, DropOldest.push]

end Request

/-! ### Runs of the event loop -/

section Runs
variable {J : JsonLib} {cfg : Config} {sub : Subscription}

theorem advance_turn (J : JsonLib) (cfg : Config) {w : World} {ref : Ref} (signal : Signal) (h : Agreeing sub w) (hturn : Turn w ref) :
    Turn (advance J cfg sub ref signal w) ref ∧ Agreeing sub (advance J cfg sub ref signal w) := by
  cases ref with
  | stream => exact ⟨advanceStream_turn signal hturn, advanceStream_agreeing signal h hturn⟩
  | request i =>
    obtain heq | ⟨op, ops, hc, heq⟩ | ⟨a, awaits, ops, hc, hfree, heq⟩ :=
      advanceRequest_cases J cfg sub w i
    · simp only [advance, heq]
      exact ⟨hturn, h⟩
    · simp only [advance, heq]
      exact ⟨commit_turn J cfg sub hturn hc, commit_agreeing h hturn hc⟩
    · simp only [advance, heq]
      exact ⟨runAwait_turn hturn hc hfree, runAwait_agreeing h hturn hc hfree⟩

theorem spawn_settled {w : World} (h : Settled sub w) (mode : Mode) (route : Route) :
    Settled sub (step J cfg sub mode w (.spawn route)).1 := by
  have hafloat : afloat sub (w.requests ++ [⟨[], route.transactions⟩]) = afloat sub w.requests := by
    simp [afloat]
  have hagree := h.agreeing
  refine ⟨⟨step_delivering mode w (.spawn route) hagree.base, hagree.ours, hagree.named, ?_, ?_, hagree.shown⟩, ?_⟩
  · intro hfresh
    obtain ⟨hqueue, hsent, hcalls⟩ := hagree.silent hfresh
    refine ⟨hqueue, hsent, ?_⟩
    intro c hc a ha
    obtain hold | hnew := List.mem_append.mp hc
    · exact hcalls c hold a ha
    · rw [List.mem_singleton.mp hnew] at ha
      simp at ha
  · intro hsubd status hlast
    apply hagree.agree hsubd status
    rw [← hafloat]
    exact hlast
  · intro ref href
    have hturn := h.turn ref href
    constructor
    · intro j c hj hne
      by_cases hlt : j < w.requests.length
      · apply hturn.sole j c _ hne
        rw [← hj]
        exact (List.getElem?_append_left hlt).symm
      · have hnew : c ∈ [(⟨[], route.transactions⟩ : Coroutine)] := by
          apply List.mem_of_getElem?
          rw [← hj]
          exact (List.getElem?_append_right (Nat.le_of_not_lt hlt)).symm
        rw [List.mem_singleton.mp hnew] at hne
        exact absurd rfl hne
    · intro r hr
      obtain ⟨rfl, hcrit⟩ := hturn.holder r hr
      refine ⟨rfl, ?_⟩
      cases r with
      | stream => exact hcrit
      | request j =>
        obtain ⟨c, hc, hlocked⟩ := hcrit
        refine ⟨c, ?_, hlocked⟩
        exact (List.getElem?_append_left (List.getElem?_eq_some_iff.mp hc).1).trans hc

theorem step_settled (w : World) (a : Action) (h : Settled sub w) :
    Settled sub (step J cfg sub .cooperative w a).1 := by
  cases a with
  | spawn route => exact spawn_settled h .cooperative route
  | run ref signal =>
    simp only [step]
    split
    · exact h
    next hturn =>
      have hcurrent : w.current = none ∨ w.current = some ref := by
        by_contra hne
        rw [not_or] at hne
        exact hturn ⟨trivial, hne.1, hne.2⟩
      obtain ⟨hnext, hagree⟩ := advance_turn J cfg signal h.agreeing (h.turn ref hcurrent)
      exact hnext.settled hagree

end Runs

/-- When every request has finished and a subscriber has read its queue, the last
status it was sent is the status in the table. -/
theorem stream_agrees_at_rest (J : JsonLib) (cfg : Config) (sub : Subscription) (as : List Action)
    (hdone : ∀ c ∈ ((machine J cfg sub .cooperative).run World.init as).requests, c.awaits = [] ∧ c.transactions = [])
    (hopen : ((machine J cfg sub .cooperative).run World.init as).stream = .check ∨
      ((machine J cfg sub .cooperative).run World.init as).stream = .get)
    (hread : ((machine J cfg sub .cooperative).run World.init as).queue = []) :
    ∃ status, (((machine J cfg sub .cooperative).run World.init as).sent.filterMap Frame.status).getLast? = some status ∧
      sub.status ((machine J cfg sub .cooperative).run World.init as).db = some status := by
  have h : Settled sub ((machine J cfg sub .cooperative).run World.init as) :=
    (machine J cfg sub .cooperative).run_invariant step_settled World.init as (settled_init sub)
  revert hdone hopen hread h
  generalize (machine J cfg sub .cooperative).run World.init as = w
  intro hdone hopen hread h
  have hlive : w.stream.live = true := by obtain hs | hs := hopen <;> rw [hs] <;> rfl
  have hafloat : afloat sub w.requests = [] := by
    apply List.flatMap_eq_nil_iff.mpr
    intro c hc
    rw [(hdone c hc).1]
    rfl
  have hshown : w.shown = w.sent.filterMap Frame.status := by
    obtain hs | hs := hopen <;> simp [World.shown, hs, hread, Stream.inHand]
  have hne := h.agreeing.shown hlive
  rw [hshown] at hne
  cases hlast : (w.sent.filterMap Frame.status).getLast? with
  | none => exact absurd (List.getLast?_eq_none_iff.mp hlast) hne
  | some status =>
    refine ⟨status, rfl, ?_⟩
    apply h.agreeing.agree (Stream.subscribed_of_live hlive)
    rw [hafloat, List.append_nil, hshown, hlast]

def sampleTaskId : Uuid := ⟨"task".toList, by decide⟩

def sampleSubscription : Subscription := ⟨"tenant".toList, "task".toList, 0⟩

def turns (ref : Ref) (n : ℕ) : List Action := List.replicate n (.run ref .none)

/-- The task is created, the stream opens and waits, the task is claimed, the stream reads on. -/
def sampleSchedule : List Action :=
  [.spawn (.register ⟨"host".toList, "\x7b\x7d".toList, []⟩ "tenant".toList "hash".toList (sampleTime 0)),
   .spawn (.createTask ⟨"echo".toList, [], none⟩ "tenant".toList sampleTaskId (sampleTime 1)),
   .spawn (.pendingAlias sampleWorker 1 (sampleTime 2) (sampleTime 2) fun _ => "attempt".toList)] ++
  turns (.request 0) 1 ++ turns (.request 1) 4 ++ turns .stream 7 ++ turns (.request 2) 6 ++ turns .stream 3

theorem stream_agrees_at_rest_sample :
    ∃ status, (((machine emptyObjectJson sampleConfig sampleSubscription .cooperative).run World.init
        sampleSchedule).sent.filterMap Frame.status).getLast? = some status ∧
      sampleSubscription.status ((machine emptyObjectJson sampleConfig sampleSubscription .cooperative).run World.init
        sampleSchedule).db = some status := by
  apply stream_agrees_at_rest
  · decide +kernel
  · decide +kernel
  · decide +kernel

end AgentWorkflow.ControlPlane.EventStream
