import AgentWorkflow.Lib.JsValue
import AgentWorkflow.Lib.Machine

/-!
# Health polling of the renderer (`src/stores/connection.ts`)

The polls that arm themselves again, the calls to test the connection that overlap them, the
events of the browser, and the callbacks that are told of a reconnection.
-/

namespace AgentWorkflow.Desktop.ConnectionPolling
open AgentWorkflow.Lib AgentWorkflow.Lib.Js

structure HealthStatus where
  status : Str
  version : Option Str
deriving DecidableEq

/-- What `api.get` does; the clock is read twice after a healthy answer. -/
inductive Answer
  | health (health : HealthStatus) (now later : ℕ)
  | failure (message : Str)

/-- The chain of polls of one start. -/
structure Poll where
  chain : ℕ
  intervalMs : ℕ
deriving DecidableEq

structure Timer where
  id : ℕ
  poll : Poll
  delay : ℕ
deriving DecidableEq

/-- A request that was not answered yet; `none` where no poll waits for it. -/
structure Test where
  id : ℕ
  poll : Option Poll
deriving DecidableEq

/-- A poll whose test is over and which has not gone on. -/
structure Settled where
  id : ℕ
  poll : Poll
  ok : Bool
deriving DecidableEq

structure Connection where
  connected : Bool
  online : Bool
  serverVersion : Str
  checking : Bool
  lastCheckTime : Option ℕ
  consecutiveFailures : ℕ
  error : Option Str
  wasConnected : Bool
  lastConnectedAt : Option ℕ
  pollTimer : Option ℕ
  reconnectCallbacks : List ℕ
  browserListenersAttached : Bool
  timers : List Timer
  tests : List Test
  settled : List Settled
  made : ℕ
  starts : ℕ
deriving DecidableEq

def initial (online : Bool) : Connection :=
  ⟨false, online, [], false, none, 0, none, false, none, none, [], false, [], [], [], 0, 0⟩

/-! ### The callbacks -/

/-- What the call at each turn of `forEach` unsubscribes, in order. -/
abbrev Acts := ℕ → List ℕ

/-- `indexOf` and `splice` -/
def unsubscribe (live : List ℕ) (cb : ℕ) : List ℕ := live.erase cb

/-- `forEach` from turn `i`: the calls with what they unsubscribe, and the list afterwards.
The number of turns is fixed, the list is the one that the calls change. -/
def forEach (acts : Acts) (i : ℕ) : ℕ → List ℕ → List (ℕ × List ℕ) × List ℕ
  | 0, live => ([], live)
  | left + 1, live =>
    match live[i]? with
    | none => forEach acts (i + 1) left live
    | some cb =>
      let (calls, rest) := forEach acts (i + 1) left ((acts i).foldl unsubscribe live)
      ((cb, acts i) :: calls, rest)

/-- Every callback of the list is called once, or unsubscribed by a call before its turn. -/
def Notified (callbacks : List ℕ) (calls : List (ℕ × List ℕ)) : Prop :=
  ∀ cb ∈ callbacks, (calls.map Prod.fst).count cb = 1 ∨
    ∃ before caller removed after, calls = before ++ (caller, removed) :: after ∧ cb ∈ removed ∧
      ∀ earlier ∈ before.map Prod.fst ++ [caller], [earlier, cb].Sublist callbacks

/-- The call at turn `i` removes itself and those before it only when none is left. -/
def undisturbed (i : ℕ) : List ℕ → List ℕ → Bool
  | [], _ => true
  | cb :: removed, live => (decide (i < live.idxOf cb) || decide (live.length ≤ i + 1)) && undisturbed i removed (unsubscribe live cb)

def orderly (acts : Acts) (i : ℕ) : ℕ → List ℕ → Bool
  | 0, _ => true
  | left + 1, live =>
    match live[i]? with
    | none => true
    | some _ => undisturbed i (acts i) live && orderly acts (i + 1) left ((acts i).foldl unsubscribe live)

theorem forEach_end (acts : Acts) (left : ℕ) {i : ℕ} {live : List ℕ} (h : live.length ≤ i) : forEach acts i left live = ([], live) := by
  induction left generalizing i with
  | zero => rfl
  | succ left ih =>
    unfold forEach
    rw [List.getElem?_eq_none h]
    exact ih (by omega)

theorem foldl_length (removed live : List ℕ) : (removed.foldl unsubscribe live).length ≤ live.length := by
  induction removed generalizing live with
  | nil => exact le_refl _
  | cons x removed ih => exact (ih _).trans List.length_erase_le

/-- An undisturbed call only takes entries out of the rest, or leaves none to be called. -/
theorem undisturbed_rest {i : ℕ} {removed done rest : List ℕ} {cb : ℕ} (hi : done.length = i)
    (h : undisturbed i removed (done ++ cb :: rest) = true) :
    ∃ rest' : List ℕ, rest'.Sublist rest ∧ (∀ x ∈ rest, x ∉ rest' → x ∈ removed) ∧
      (removed.foldl unsubscribe (done ++ cb :: rest) = done ++ cb :: rest' ∨
        (rest' = [] ∧ (removed.foldl unsubscribe (done ++ cb :: rest)).length ≤ i + 1)) := by
  induction removed generalizing rest with
  | nil => exact ⟨rest, List.Sublist.refl _, fun x hx hnot => absurd hx hnot, Or.inl rfl⟩
  | cons x removed ih =>
    simp only [undisturbed, Bool.and_eq_true, Bool.or_eq_true, decide_eq_true_eq] at h
    obtain ⟨hfirst, hothers⟩ := h
    by_cases hlast : (done ++ cb :: rest).length ≤ i + 1
    · -- nothing is left after this call
      have hrest : rest = [] := by
        rw [List.length_append, List.length_cons] at hlast
        exact List.length_eq_zero_iff.mp (by omega)
      refine ⟨[], List.nil_sublist _, fun y hy => ?_, Or.inr ⟨rfl, ?_⟩⟩
      · rw [hrest] at hy
        exact nomatch hy
      · exact (foldl_length _ _).trans hlast
    · have hidx := hfirst.resolve_right hlast
      have hdone : x ∉ done ++ [cb] := by
        intro hmem
        have hsplit : done ++ cb :: rest = (done ++ [cb]) ++ rest := by simp
        rw [hsplit, List.idxOf_append_of_mem hmem] at hidx
        have hlt := List.idxOf_lt_length_of_mem hmem
        rw [List.length_append, List.length_singleton] at hlt
        omega
      have herase : unsubscribe (done ++ cb :: rest) x = done ++ cb :: rest.erase x := by
        have hsplit : done ++ cb :: rest = (done ++ [cb]) ++ rest := by simp
        unfold unsubscribe
        rw [hsplit, List.erase_append_right _ hdone]
        simp
      rw [herase] at hothers
      obtain ⟨rest', hsub, htaken, hcase⟩ := ih hothers
      refine ⟨rest', hsub.trans List.erase_sublist, fun y hy hnot => ?_, ?_⟩
      · by_cases hyx : y = x
        · rw [hyx]
          exact List.mem_cons_self ..
        · exact List.mem_cons_of_mem _ (htaken y ((List.mem_erase_of_ne hyx).mpr hy) hnot)
      · rw [List.foldl_cons, herase]
        exact hcase

/-- What the turns from `i` on do with the callbacks that were not called yet. -/
theorem forEach_rest (acts : Acts) {left i : ℕ} {done rest : List ℕ} (hi : done.length = i) (hleft : rest.length ≤ left)
    (hnodup : rest.Nodup) (h : orderly acts i left (done ++ rest) = true) :
    Notified rest (forEach acts i left (done ++ rest)).1 ∧ ∀ cb ∈ (forEach acts i left (done ++ rest)).1.map Prod.fst, cb ∈ rest := by
  induction left generalizing i done rest with
  | zero =>
    rw [List.length_eq_zero_iff.mp (Nat.le_zero.mp hleft)]
    exact ⟨nofun, nofun⟩
  | succ left ih =>
    cases rest with
    | nil =>
      rw [forEach_end acts (left + 1) (by simp [hi])]
      exact ⟨nofun, nofun⟩
    | cons cb rest =>
      have hturn : (done ++ cb :: rest)[i]? = some cb := by
        rw [← hi]
        simp
      have hcalls : forEach acts i (left + 1) (done ++ cb :: rest) =
          ((cb, acts i) :: (forEach acts (i + 1) left ((acts i).foldl unsubscribe (done ++ cb :: rest))).1,
            (forEach acts (i + 1) left ((acts i).foldl unsubscribe (done ++ cb :: rest))).2) := by
        rw [forEach, hturn]
      simp only [orderly, hturn, Bool.and_eq_true] at h
      obtain ⟨hcalm, hlater⟩ := h
      obtain ⟨rest', hsub, htaken, hcase⟩ := undisturbed_rest hi hcalm
      have hnew : cb ∉ rest' := fun hmem => (List.nodup_cons.mp hnodup).1 (hsub.subset hmem)
      -- the calls that follow are those of what the call left
      obtain ⟨hnotified, hmem⟩ : Notified rest' (forEach acts (i + 1) left ((acts i).foldl unsubscribe (done ++ cb :: rest))).1 ∧
          ∀ x ∈ (forEach acts (i + 1) left ((acts i).foldl unsubscribe (done ++ cb :: rest))).1.map Prod.fst, x ∈ rest' := by
        rcases hcase with hlive | ⟨hnil, hlength⟩
        · have hsplit : done ++ cb :: rest' = (done ++ [cb]) ++ rest' := by simp
          rw [hlive, hsplit] at hlater ⊢
          have hlength := hsub.length_le
          rw [List.length_cons] at hleft
          exact ih (by simp [hi]) (by omega) ((List.nodup_cons.mp hnodup).2.sublist hsub) hlater
        · rw [forEach_end acts left hlength, hnil]
          exact ⟨nofun, nofun⟩
      rw [hcalls]
      constructor
      · intro x hx
        rcases List.mem_cons.mp hx with rfl | hx
        · left
          rw [List.map_cons, List.count_cons_self, List.count_eq_zero_of_not_mem fun hcalled => hnew (hmem _ hcalled)]
        · have hne : cb ≠ x := fun heq => (List.nodup_cons.mp hnodup).1 (heq ▸ hx)
          have hfirst : [cb, x].Sublist (cb :: rest) := (List.singleton_sublist.mpr hx).cons_cons cb
          by_cases hkept : x ∈ rest'
          · rcases hnotified x hkept with hcount | ⟨before, caller, removed, after, heq, hremoved, hearlier⟩
            · left
              rw [List.map_cons, List.count_cons_of_ne hne, hcount]
            · right
              refine ⟨(cb, acts i) :: before, caller, removed, after, by rw [heq]; rfl, hremoved, fun e he => ?_⟩
              rcases List.mem_cons.mp he with rfl | he
              · exact hfirst
              · exact (hearlier e he).trans (hsub.trans (List.sublist_cons_self ..))
          · right
            refine ⟨[], cb, acts i, _, rfl, htaken x hx hkept, fun e he => ?_⟩
            rw [List.map_nil, List.nil_append, List.mem_singleton] at he
            rw [he]
            exact hfirst
      · intro x hx
        rcases List.mem_cons.mp hx with rfl | hx
        · exact List.mem_cons_self ..
        · exact List.mem_cons_of_mem _ (hsub.subset (hmem x hx))

/-! ### The store -/

def Connection.settle (s : Connection) (poll : Option Poll) (ok : Bool) : Connection :=
  match poll with
  | none => s
  | some poll => { s with settled := s.settled ++ [⟨s.made, poll, ok⟩], made := s.made + 1 }

/-- `testConnection` up to its request. -/
def Connection.testConnection (s : Connection) (poll : Option Poll) : Connection :=
  if s.online then { s with checking := true, error := none, tests := s.tests ++ [⟨s.made, poll⟩], made := s.made + 1 }
  else { s with connected := false, error := some (str "connection.browserOffline") }.settle poll false

/-- The rest of `testConnection`. -/
def Connection.answered (s : Connection) (test : Test) (answer : Answer) (acts : Acts) : Connection × List (ℕ × List ℕ) :=
  let s := { s with tests := s.tests.erase test }
  match answer with
  | .failure message =>
    (Connection.settle
      { s with
        connected := false
        serverVersion := []
        consecutiveFailures := s.consecutiveFailures + 1
        error := some message
        checking := false }
      test.poll false, [])
  | .health health now later =>
    let isHealthy := decide (health.status = str "ok" ∨ health.status = str "degraded")
    let wasPreviouslyDisconnected := !s.connected
    let s :=
      { s with
        connected := isHealthy
        serverVersion := health.version.getD []
        lastCheckTime := some now
        consecutiveFailures := 0 }
    if isHealthy then
      let (calls, callbacks) :=
        if wasPreviouslyDisconnected && s.wasConnected then forEach acts 0 s.reconnectCallbacks.length s.reconnectCallbacks
        else ([], s.reconnectCallbacks)
      (Connection.settle
        { s with
          lastConnectedAt := some later
          reconnectCallbacks := callbacks
          wasConnected := true
          checking := false }
        test.poll true, calls)
    else (Connection.settle { s with checking := false } test.poll false, [])

def Connection.scheduleNext (s : Connection) (poll : Poll) (currentInterval : ℕ) : Connection :=
  { s with pollTimer := some s.made, timers := s.timers ++ [⟨s.made, poll, currentInterval⟩], made := s.made + 1 }

/-- A poll after its test. -/
def Connection.resumed (s : Connection) (settled : Settled) : Connection :=
  let newInterval :=
    if settled.ok then settled.poll.intervalMs
    else if 10 ≤ s.consecutiveFailures then 60000
    else if 3 ≤ s.consecutiveFailures then 10000
    else settled.poll.intervalMs
  Connection.scheduleNext { s with settled := s.settled.erase settled } settled.poll newInterval

def Connection.stopHealthPolling (s : Connection) : Connection :=
  match s.pollTimer with
  | none => s
  | some pollTimer => { s with timers := s.timers.filter fun timer => decide (timer.id ≠ pollTimer), pollTimer := none }

def Connection.startHealthPolling (s : Connection) (intervalMs : ℕ) : Connection :=
  let s := { s with browserListenersAttached := true }.stopHealthPolling.testConnection none
  { s.scheduleNext ⟨s.starts, intervalMs⟩ intervalMs with starts := s.starts + 1 }

inductive Event
  | onReconnect (cb : ℕ)
  | unsubscribe (cb : ℕ)
  | attachBrowserListeners
  | startHealthPolling (intervalMs : ℕ)
  | stopHealthPolling
  | testConnection
  | online
  | offline
  | fire (id : ℕ)
  | answered (id : ℕ) (answer : Answer) (acts : Acts)
  | resumed (id : ℕ)

def Connection.test (s : Connection) (id : ℕ) : Option Test := s.tests.find? fun test => decide (test.id = id)

def Connection.waiting (s : Connection) (id : ℕ) : Option Settled := s.settled.find? fun settled => decide (settled.id = id)

def Connection.timer (s : Connection) (id : ℕ) : Option Timer := s.timers.find? fun timer => decide (timer.id = id)

def Connection.step (s : Connection) : Event → Connection × List (ℕ × List ℕ)
  | .onReconnect cb => ({ s with reconnectCallbacks := s.reconnectCallbacks ++ [cb] }, [])
  | .unsubscribe cb => ({ s with reconnectCallbacks := ConnectionPolling.unsubscribe s.reconnectCallbacks cb }, [])
  | .attachBrowserListeners => ({ s with browserListenersAttached := true }, [])
  | .startHealthPolling intervalMs => (s.startHealthPolling intervalMs, [])
  | .stopHealthPolling => (s.stopHealthPolling, [])
  | .testConnection => (s.testConnection none, [])
  | .online => (if s.browserListenersAttached then { s with online := true }.testConnection none else s, [])
  | .offline => (if s.browserListenersAttached then { s with online := false, connected := false } else s, [])
  | .fire id =>
    match s.timer id with
    | none => (s, [])
    | some timer => ({ s with timers := s.timers.erase timer }.testConnection (some timer.poll), [])
  | .answered id answer acts =>
    match s.test id with
    | none => (s, [])
    | some test => s.answered test answer acts
  | .resumed id =>
    match s.waiting id with
    | none => (s, [])
    | some settled => (s.resumed settled, [])

/-! ### What is wanted -/

/-- The store, and the chain of the latest start while it was not stopped. -/
structure Watched where
  store : Connection
  active : Option ℕ

def Watched.step (w : Watched) (e : Event) : Watched × List (ℕ × List ℕ) :=
  (⟨(w.store.step e).1, match e with
      | .startHealthPolling _ => some w.store.starts
      | .stopHealthPolling => none
      | _ => w.active⟩,
    (w.store.step e).2)

def machine : Machine Watched Event (List (ℕ × List ℕ)) := ⟨Watched.step⟩

def watched (online : Bool) : Watched := ⟨initial online, none⟩

/-- The timers and the polls in flight of a chain. -/
def Connection.chain (s : Connection) (chain : ℕ) : ℕ :=
  s.timers.countP (fun timer => decide (timer.poll.chain = chain)) +
    s.tests.countP (fun test => decide (test.poll.map Poll.chain = some chain)) +
    s.settled.countP (fun settled => decide (settled.poll.chain = chain))

structure Truthful (w : Watched) (e : Event) : Prop where
  single : ∀ latest, (w.store.step e).1.starts = latest + 1 → (w.store.step e).1.chain latest ≤ 1
  rests : (w.step e).1.active = none → (w.store.step e).1.timers = []
  online : (w.store.step e).1.connected = true → (w.store.step e).1.online = true
  notified : w.store.connected = false → w.store.wasConnected = true → (w.store.step e).1.connected = true →
    Notified w.store.reconnectCallbacks (w.store.step e).2

/-- No healthy answer comes while offline; a poll goes on only where its chain was not stopped
since its timer; and the callbacks that are called are distinct and do not disturb the turns. -/
def Watched.undisturbed (w : Watched) : Event → Bool
  | .answered id (.health health _ _) acts =>
    (w.store.test id).isNone || !decide (health.status = str "ok" ∨ health.status = str "degraded") ||
      w.store.online && (w.store.connected || !w.store.wasConnected ||
        decide w.store.reconnectCallbacks.Nodup &&
          orderly acts 0 w.store.reconnectCallbacks.length w.store.reconnectCallbacks)
  | .resumed id =>
    match w.store.waiting id with
    | none => true
    | some settled => decide (w.active = some settled.poll.chain)
  | _ => true

/-! ### One chain for each start -/

/-- At most one timer or poll for each start, none for the starts to come. -/
structure Chains (s : Connection) : Prop where
  single : ∀ chain, s.chain chain ≤ 1
  fresh : ∀ chain, s.starts ≤ chain → s.chain chain = 0

/-- A step that gives no chain a new timer or poll. -/
theorem Chains.mono {s t : Connection} (h : Chains s) (hchain : ∀ chain, t.chain chain ≤ s.chain chain) (hstarts : t.starts = s.starts) :
    Chains t := by
  refine ⟨fun chain => (hchain chain).trans (h.single chain), fun chain hc => ?_⟩
  have hle := hchain chain
  rw [h.fresh chain (hstarts ▸ hc)] at hle
  omega

theorem countP_erase_of_mem {α : Type} [DecidableEq α] (p : α → Bool) {a : α} {l : List α} (h : a ∈ l) :
    (l.erase a).countP p + (if p a then 1 else 0) = l.countP p := by
  have hperm := (List.perm_cons_erase h).countP_eq p
  rw [List.countP_cons] at hperm
  exact hperm.symm

theorem chain_settle (s : Connection) (poll : Option Poll) (ok : Bool) (chain : ℕ) :
    (s.settle poll ok).chain chain = s.chain chain + if poll.map Poll.chain = some chain then 1 else 0 := by
  unfold Connection.settle
  cases poll with
  | none => simp
  | some poll => simp [Connection.chain, List.countP_append, Nat.add_assoc]

theorem chain_testConnection (s : Connection) (poll : Option Poll) (chain : ℕ) :
    (s.testConnection poll).chain chain = s.chain chain + if poll.map Poll.chain = some chain then 1 else 0 := by
  unfold Connection.testConnection
  split
  · simp only [Connection.chain, List.countP_append, List.countP_singleton, decide_eq_true_eq]
    omega
  · exact chain_settle ..

theorem chain_scheduleNext (s : Connection) (poll : Poll) (currentInterval chain : ℕ) :
    (s.scheduleNext poll currentInterval).chain chain = s.chain chain + if poll.chain = chain then 1 else 0 := by
  simp only [Connection.scheduleNext, Connection.chain, List.countP_append, List.countP_singleton, decide_eq_true_eq]
  omega

theorem chain_stop (s : Connection) (chain : ℕ) : s.stopHealthPolling.chain chain ≤ s.chain chain := by
  unfold Connection.stopHealthPolling
  split
  · exact le_refl _
  · simp only [Connection.chain]
    have hle := List.Sublist.countP_le (p := fun timer : Timer => decide (timer.poll.chain = chain))
      (List.filter_sublist (p := fun timer : Timer => decide (timer.id ≠ ‹ℕ›)) (l := s.timers))
    omega

theorem chain_answered {s : Connection} {test : Test} (h : test ∈ s.tests) (answer : Answer) (acts : Acts) (chain : ℕ) :
    (s.answered test answer acts).1.chain chain = s.chain chain := by
  have hcount := countP_erase_of_mem (fun test : Test => decide (test.poll.map Poll.chain = some chain)) h
  simp only [decide_eq_true_eq] at hcount
  unfold Connection.answered
  cases answer with
  | failure message =>
    dsimp only
    rw [chain_settle]
    simp only [Connection.chain]
    omega
  | health health now later =>
    dsimp only
    split
    · rw [chain_settle]
      simp only [Connection.chain]
      omega
    · rw [chain_settle]
      simp only [Connection.chain]
      omega

theorem starts_settle (s : Connection) (poll : Option Poll) (ok : Bool) : (s.settle poll ok).starts = s.starts := by
  cases poll <;> rfl

theorem starts_testConnection (s : Connection) (poll : Option Poll) : (s.testConnection poll).starts = s.starts := by
  unfold Connection.testConnection
  split
  · rfl
  · exact starts_settle ..

theorem starts_stop (s : Connection) : s.stopHealthPolling.starts = s.starts := by
  unfold Connection.stopHealthPolling
  split <;> rfl

theorem starts_answered (s : Connection) (test : Test) (answer : Answer) (acts : Acts) : (s.answered test answer acts).1.starts = s.starts := by
  unfold Connection.answered
  cases answer with
  | failure message => exact starts_settle ..
  | health health now later =>
    dsimp only
    split
    · exact starts_settle ..
    · exact starts_settle ..

/-- A start stops, tests the connection and arms the first timer of its chain. -/
theorem startHealthPolling_eq (s : Connection) (intervalMs : ℕ) :
    ∃ begun : Connection, s.startHealthPolling intervalMs =
        { begun.scheduleNext ⟨s.starts, intervalMs⟩ intervalMs with starts := s.starts + 1 } ∧
      begun = (Connection.stopHealthPolling { s with browserListenersAttached := true }).testConnection none ∧
      ∀ chain, begun.chain chain ≤ s.chain chain := by
  have hstarts : (Connection.testConnection (Connection.stopHealthPolling { s with browserListenersAttached := true }) none).starts =
      s.starts := by
    rw [starts_testConnection, starts_stop]
  refine ⟨_, ?_, rfl, fun chain => ?_⟩
  · unfold Connection.startHealthPolling
    dsimp only
    rw [hstarts]
  · rw [chain_testConnection, if_neg nofun]
    exact chain_stop { s with browserListenersAttached := true } chain

theorem Chains.startHealthPolling {s : Connection} (h : Chains s) (intervalMs : ℕ) : Chains (s.startHealthPolling intervalMs) := by
  obtain ⟨begun, hstart, -, hbegun⟩ := startHealthPolling_eq s intervalMs
  have hchain : ∀ chain, (s.startHealthPolling intervalMs).chain chain ≤ s.chain chain + if s.starts = chain then 1 else 0 := by
    intro chain
    rw [hstart]
    have heq : (begun.scheduleNext ⟨s.starts, intervalMs⟩ intervalMs).chain chain =
        begun.chain chain + if s.starts = chain then 1 else 0 := chain_scheduleNext ..
    have hle := hbegun chain
    show (begun.scheduleNext ⟨s.starts, intervalMs⟩ intervalMs).chain chain ≤ _
    rw [heq]
    omega
  constructor
  · intro chain
    have hle := hchain chain
    by_cases hnew : s.starts = chain
    · rw [if_pos hnew, h.fresh chain (by omega)] at hle
      omega
    · rw [if_neg hnew] at hle
      exact hle.trans (h.single chain)
  · intro chain hc
    have hle := hchain chain
    rw [hstart] at hc
    have hc' : s.starts + 1 ≤ chain := hc
    rw [if_neg (by omega), h.fresh chain (by omega)] at hle
    omega

theorem Chains.step {s : Connection} (h : Chains s) (e : Event) : Chains (s.step e).1 := by
  cases e with
  | onReconnect cb => exact h.mono (fun _ => le_refl _) rfl
  | unsubscribe cb => exact h.mono (fun _ => le_refl _) rfl
  | attachBrowserListeners => exact h.mono (fun _ => le_refl _) rfl
  | startHealthPolling intervalMs => exact h.startHealthPolling intervalMs
  | stopHealthPolling => exact h.mono (chain_stop s) (starts_stop s)
  | testConnection => exact h.mono (fun chain => by simp [Connection.step, chain_testConnection]) (starts_testConnection ..)
  | online =>
    simp only [Connection.step]
    split
    · refine h.mono (fun chain => ?_) (starts_testConnection ..)
      rw [chain_testConnection]
      exact le_of_eq (by simp [Connection.chain])
    · exact h
  | offline =>
    simp only [Connection.step]
    split
    · exact h.mono (fun _ => le_refl _) rfl
    · exact h
  | fire id =>
    simp only [Connection.step]
    split
    · exact h
    · next timer htimer =>
      refine h.mono (fun chain => ?_) (starts_testConnection ..)
      have hcount := countP_erase_of_mem (fun timer : Timer => decide (timer.poll.chain = chain)) (List.mem_of_find?_eq_some htimer)
      simp only [decide_eq_true_eq] at hcount
      rw [chain_testConnection]
      simp only [Connection.chain, Option.map_some, Option.some.injEq]
      omega
  | answered id answer acts =>
    simp only [Connection.step]
    split
    · exact h
    · next test htest =>
      exact h.mono (fun chain => le_of_eq (chain_answered (List.mem_of_find?_eq_some htest) answer acts chain)) (starts_answered ..)
  | resumed id =>
    simp only [Connection.step]
    split
    · exact h
    · next settled hsettled =>
      refine h.mono (fun chain => ?_) rfl
      have hcount := countP_erase_of_mem (fun settled : Settled => decide (settled.poll.chain = chain)) (List.mem_of_find?_eq_some hsettled)
      simp only [decide_eq_true_eq] at hcount
      unfold Connection.resumed
      dsimp only
      rw [chain_scheduleNext]
      simp only [Connection.chain]
      omega

/-! ### Runs -/

/-- What holds while the runs are undisturbed: every timer is the one that a stop clears, and
belongs to the latest start. -/
structure Held (w : Watched) : Prop where
  chains : Chains w.store
  timers : ∀ timer ∈ w.store.timers, w.store.pollTimer = some timer.id ∧ w.active = some timer.poll.chain
  online : w.store.connected = true → w.store.online = true

theorem held_watched (online : Bool) : Held (watched online) :=
  ⟨⟨fun _ => Nat.zero_le 1, fun _ _ => rfl⟩, nofun, nofun⟩

/-- The timers, and the variable that holds the last one. -/
def Connection.armed (s : Connection) : List Timer × Option ℕ := (s.timers, s.pollTimer)

theorem armed_settle (s : Connection) (poll : Option Poll) (ok : Bool) : (s.settle poll ok).armed = s.armed := by
  cases poll <;> rfl

theorem armed_testConnection (s : Connection) (poll : Option Poll) : (s.testConnection poll).armed = s.armed := by
  unfold Connection.testConnection
  split
  · rfl
  · exact armed_settle ..

theorem armed_answered (s : Connection) (test : Test) (answer : Answer) (acts : Acts) : (s.answered test answer acts).1.armed = s.armed := by
  unfold Connection.answered
  cases answer with
  | failure message => exact armed_settle ..
  | health health now later =>
    dsimp only
    split
    · exact armed_settle ..
    · exact armed_settle ..

/-- The connection as the user sees it. -/
def Connection.seen (s : Connection) : Bool × Bool := (s.connected, s.online)

theorem seen_settle (s : Connection) (poll : Option Poll) (ok : Bool) : (s.settle poll ok).seen = s.seen := by
  cases poll <;> rfl

theorem connected_settle (s : Connection) (poll : Option Poll) (ok : Bool) : (s.settle poll ok).connected = s.connected :=
  congrArg Prod.fst (seen_settle s poll ok)

theorem seen_testConnection (s : Connection) (poll : Option Poll) :
    (s.testConnection poll).seen = if s.online then s.seen else (false, s.online) := by
  unfold Connection.testConnection
  split
  · rfl
  · exact seen_settle ..

theorem seen_stop (s : Connection) : s.stopHealthPolling.seen = s.seen := by
  unfold Connection.stopHealthPolling
  split <;> rfl

def Truth (seen : Bool × Bool) : Prop := seen.1 = true → seen.2 = true

theorem truth_testConnection {s : Connection} (h : Truth s.seen) (poll : Option Poll) : Truth (s.testConnection poll).seen := by
  rw [seen_testConnection]
  split
  · exact h
  · exact nofun

/-- A stop leaves no timer. -/
theorem stop_timers {w : Watched} (h : Held w) : w.store.stopHealthPolling.timers = [] := by
  unfold Connection.stopHealthPolling
  split
  · next hnone =>
    apply List.eq_nil_iff_forall_not_mem.mpr
    intro timer htimer
    rw [(h.timers timer htimer).1] at hnone
    cases hnone
  · next id hsome =>
    apply List.filter_eq_nil_iff.mpr
    intro timer htimer
    have hid := (h.timers timer htimer).1
    rw [hsome] at hid
    simpa using (Option.some.inj hid).symm

/-- A step that leaves the timers and the start alone. -/
theorem Held.armed {w w' : Watched} (h : Held w) (hchains : Chains w'.store) (harmed : w'.store.armed = w.store.armed)
    (hactive : w'.active = w.active) (honline : Truth w'.store.seen) : Held w' := by
  have htimers : w'.store.timers = w.store.timers := congrArg Prod.fst harmed
  have hpoll : w'.store.pollTimer = w.store.pollTimer := congrArg Prod.snd harmed
  refine ⟨hchains, ?_, honline⟩
  rw [htimers, hpoll, hactive]
  exact h.timers

/-- An undisturbed answer. -/
theorem truth_answered {w : Watched} {id : ℕ} {test : Test} (htest : w.store.test id = some test) {answer : Answer}
    {acts : Acts} (hu : w.undisturbed (.answered id answer acts) = true) : Truth (w.store.answered test answer acts).1.seen := by
  unfold Connection.answered
  cases answer with
  | failure message =>
    dsimp only
    rw [seen_settle]
    exact nofun
  | health health now later =>
    dsimp only
    split
    · next hhealthy =>
      rw [seen_settle]
      intro _
      simp only [Watched.undisturbed, htest, hhealthy, Option.isNone_some, Bool.not_true, Bool.false_or, Bool.and_eq_true] at hu
      exact hu.1
    · next hhealthy =>
      rw [seen_settle]
      intro hconnected
      exact absurd hconnected hhealthy

theorem notified_answered {w : Watched} {id : ℕ} {test : Test} (htest : w.store.test id = some test) {answer : Answer} {acts : Acts}
    (hu : w.undisturbed (.answered id answer acts) = true) (hbefore : w.store.connected = false) (hwas : w.store.wasConnected = true)
    (hafter : (w.store.answered test answer acts).1.connected = true) :
    Notified w.store.reconnectCallbacks (w.store.answered test answer acts).2 := by
  unfold Connection.answered at hafter ⊢
  cases answer with
  | failure message =>
    rw [connected_settle] at hafter
    cases hafter
  | health health now later =>
    dsimp only at hafter ⊢
    split at hafter
    · next hhealthy =>
      rw [if_pos hhealthy]
      simp only [Watched.undisturbed, htest, hhealthy, hbefore, hwas, Option.isNone_some, Bool.not_true, Bool.false_or, Bool.and_eq_true,
        decide_eq_true_eq] at hu
      obtain ⟨-, hnodup, horderly⟩ := hu
      rw [hbefore, hwas]
      exact (@forEach_rest acts _ _ [] _ rfl (le_refl _) hnodup horderly).1
    · next hhealthy =>
      rw [connected_settle] at hafter
      exact absurd hafter hhealthy

theorem Held.resumed {w : Watched} (h : Held w) {id : ℕ} {settled : Settled} (hwaiting : w.store.waiting id = some settled)
    (hactive : w.active = some settled.poll.chain) (hchains : Chains (w.store.resumed settled)) :
    Held ⟨w.store.resumed settled, w.active⟩ := by
  have hmem : settled ∈ w.store.settled := List.mem_of_find?_eq_some hwaiting
  -- a timer would be a second one for this chain
  have hnone : w.store.timers = [] := by
    apply List.eq_nil_iff_forall_not_mem.mpr
    intro timer htimer
    have hchain := (h.timers timer htimer).2
    rw [hactive, Option.some.injEq] at hchain
    have hsingle := h.chains.single settled.poll.chain
    have htimers : 0 < w.store.timers.countP fun timer => decide (timer.poll.chain = settled.poll.chain) :=
      List.countP_pos_iff.mpr ⟨timer, htimer, by simp [hchain]⟩
    have hsettled : 0 < w.store.settled.countP fun other => decide (other.poll.chain = settled.poll.chain) :=
      List.countP_pos_iff.mpr ⟨settled, hmem, by simp⟩
    unfold Connection.chain at hsingle
    omega
  refine ⟨hchains, ?_, h.online⟩
  intro timer htimer
  simp only [Connection.resumed, Connection.scheduleNext, hnone, List.nil_append, List.mem_singleton] at htimer ⊢
  rw [htimer]
  exact ⟨rfl, hactive⟩

theorem Held.startHealthPolling {w : Watched} (h : Held w) (intervalMs : ℕ) :
    Held ⟨w.store.startHealthPolling intervalMs, some w.store.starts⟩ := by
  have hchains := h.chains.startHealthPolling intervalMs
  obtain ⟨begun, hstart, hbegun, -⟩ := startHealthPolling_eq w.store intervalMs
  have hstopped : (Connection.stopHealthPolling { w.store with browserListenersAttached := true }).timers = [] :=
    stop_timers (w := ⟨{ w.store with browserListenersAttached := true }, w.active⟩) ⟨⟨h.chains.single, h.chains.fresh⟩, h.timers, h.online⟩
  have htimers : begun.timers = [] := by
    rw [hbegun]
    exact (congrArg Prod.fst (armed_testConnection _ none)).trans hstopped
  have htruth : Truth begun.seen := by
    rw [hbegun]
    refine truth_testConnection ?_ none
    rw [seen_stop]
    exact h.online
  refine ⟨hchains, ?_, ?_⟩
  · dsimp only
    rw [hstart]
    intro timer htimer
    simp only [Connection.scheduleNext, htimers, List.nil_append, List.mem_singleton] at htimer ⊢
    rw [htimer]
    exact ⟨rfl, rfl⟩
  · dsimp only
    rw [hstart]
    exact htruth

theorem held_step {w : Watched} {e : Event} (h : Held w) (hu : w.undisturbed e = true) : Held (w.step e).1 := by
  have hchains := h.chains.step e
  cases e with
  | onReconnect cb => exact h.armed hchains rfl rfl h.online
  | unsubscribe cb => exact h.armed hchains rfl rfl h.online
  | attachBrowserListeners => exact h.armed hchains rfl rfl h.online
  | startHealthPolling intervalMs => exact h.startHealthPolling intervalMs
  | stopHealthPolling =>
    have htimers := stop_timers h
    refine ⟨hchains, fun timer htimer => ?_, ?_⟩
    · have hmem : timer ∈ w.store.stopHealthPolling.timers := htimer
      rw [htimers] at hmem
      exact nomatch hmem
    · have hseen := seen_stop w.store
      show Truth w.store.stopHealthPolling.seen
      rw [hseen]
      exact h.online
  | testConnection => exact h.armed hchains (armed_testConnection ..) rfl (truth_testConnection h.online none)
  | online =>
    refine h.armed hchains ?_ rfl ?_
    · simp only [Watched.step, Connection.step]
      split
      · exact armed_testConnection ..
      · rfl
    · simp only [Watched.step, Connection.step]
      split
      · exact truth_testConnection (fun _ => rfl) none
      · exact h.online
  | offline =>
    refine h.armed hchains ?_ rfl ?_
    · simp only [Watched.step, Connection.step]
      split <;> rfl
    · simp only [Watched.step, Connection.step]
      split
      · exact nofun
      · exact h.online
  | fire id =>
    simp only [Watched.step, Connection.step] at hchains ⊢
    split
    · exact h
    · next timer htimer =>
      simp only [htimer] at hchains
      have harmed := armed_testConnection { w.store with timers := w.store.timers.erase timer } (some timer.poll)
      refine ⟨hchains, ?_, truth_testConnection (s := { w.store with timers := w.store.timers.erase timer }) h.online _⟩
      have htimers : (Connection.testConnection { w.store with timers := w.store.timers.erase timer } (some timer.poll)).timers =
          w.store.timers.erase timer := congrArg Prod.fst harmed
      have hpoll := congrArg Prod.snd harmed
      dsimp only
      rw [htimers]
      intro other hother
      have hkept := h.timers other (List.mem_of_mem_erase hother)
      exact ⟨hpoll.trans hkept.1, hkept.2⟩
  | answered id answer acts =>
    simp only [Watched.step, Connection.step] at hchains ⊢
    split
    · exact h
    · next test htest =>
      simp only [htest] at hchains
      exact h.armed hchains (armed_answered ..) rfl (truth_answered htest hu)
  | resumed id =>
    simp only [Watched.step, Connection.step] at hchains ⊢
    split
    · exact h
    · next settled hwaiting =>
      simp only [hwaiting] at hchains
      simp only [Watched.undisturbed, hwaiting, decide_eq_true_eq] at hu
      exact h.resumed hwaiting hu hchains

/-- Only an answer connects. -/
theorem connected_step {s : Connection} {e : Event} (hbefore : s.connected = false) (hafter : (s.step e).1.connected = true) :
    ∃ id answer acts, e = .answered id answer acts := by
  have htest : ∀ t : Connection, t.connected = false → ∀ poll, (t.testConnection poll).connected = false := by
    intro t ht poll
    have hseen := congrArg Prod.fst (seen_testConnection t poll)
    have heq : (t.testConnection poll).connected = _ := hseen
    rw [heq]
    split
    · exact ht
    · rfl
  have hstop : ∀ t : Connection, t.stopHealthPolling.connected = t.connected := fun t => congrArg Prod.fst (seen_stop t)
  cases e with
  | answered id answer acts => exact ⟨id, answer, acts, rfl⟩
  | onReconnect cb => exact absurd (hbefore.symm.trans hafter) nofun
  | unsubscribe cb => exact absurd (hbefore.symm.trans hafter) nofun
  | attachBrowserListeners => exact absurd (hbefore.symm.trans hafter) nofun
  | startHealthPolling intervalMs =>
    obtain ⟨begun, hstart, hbegun, -⟩ := startHealthPolling_eq s intervalMs
    have hnot : begun.connected = false := by
      rw [hbegun]
      exact htest _ ((hstop { s with browserListenersAttached := true }).trans hbefore) none
    have hconnected : (s.startHealthPolling intervalMs).connected = begun.connected := by rw [hstart]; rfl
    exact absurd ((hconnected.trans hnot).symm.trans hafter) nofun
  | stopHealthPolling => exact absurd (((hstop s).trans hbefore).symm.trans hafter) nofun
  | testConnection => exact absurd ((htest s hbefore none).symm.trans hafter) nofun
  | online =>
    simp only [Connection.step] at hafter
    split at hafter
    · exact absurd ((htest { s with online := true } hbefore none).symm.trans hafter) nofun
    · exact absurd (hbefore.symm.trans hafter) nofun
  | offline =>
    simp only [Connection.step] at hafter
    split at hafter
    · cases hafter
    · exact absurd (hbefore.symm.trans hafter) nofun
  | fire id =>
    simp only [Connection.step] at hafter
    split at hafter
    · exact absurd (hbefore.symm.trans hafter) nofun
    · next timer _ => exact absurd ((htest { s with timers := s.timers.erase timer } hbefore _).symm.trans hafter) nofun
  | resumed id =>
    simp only [Connection.step] at hafter
    split at hafter
    · exact absurd (hbefore.symm.trans hafter) nofun
    · exact absurd (hbefore.symm.trans hafter) nofun

theorem truthful_step {w : Watched} {e : Event} (h : Held w) (hu : w.undisturbed e = true) : Truthful w e := by
  have hheld := held_step h hu
  refine ⟨fun latest _ => hheld.chains.single latest, fun hactive => ?_, hheld.online, fun hbefore hwas hafter => ?_⟩
  · apply List.eq_nil_iff_forall_not_mem.mpr
    intro timer htimer
    have hchain := (hheld.timers timer htimer).2
    rw [hactive] at hchain
    cases hchain
  · obtain ⟨id, answer, acts, rfl⟩ := connected_step hbefore hafter
    simp only [Connection.step] at hafter ⊢
    cases htest : w.store.test id with
    | none =>
      rw [htest] at hafter
      exact absurd (hbefore.symm.trans hafter) nofun
    | some test =>
      rw [htest] at hafter
      exact notified_answered htest hu hbefore hwas hafter

/-- In an undisturbed run there is one chain of polls and none after a stop, `connected` is
never true while offline, and each reconnection is told to every callback once. -/
theorem health_polling (online : Bool) {is : List Event} (h : machine.Along (fun w e => w.undisturbed e = true) (watched online) is) :
    machine.Along Truthful (watched online) is :=
  Machine.Along.of_invariant machine (fun _ _ hheld hu => held_step hheld hu) (fun _ _ hheld hu => truthful_step hheld hu)
    (held_watched online) h

def sampleHealthy : Answer := .health ⟨str "ok", some (str "1.0.0")⟩ 1 2

/-- Three callbacks, a reconnection in which the second takes out the third, a poll and a stop. -/
def sampleRun : List Event :=
  [.onReconnect 1, .onReconnect 2, .onReconnect 3, .startHealthPolling 30000, .answered 0 sampleHealthy (fun _ => []),
    .offline, .online, .answered 2 sampleHealthy (fun turn => if turn = 1 then [3] else []),
    .fire 1, .answered 3 (.failure (str "timeout")) (fun _ => []), .resumed 4, .stopHealthPolling]

theorem sample_truthful :
    machine.Along Truthful (watched true) sampleRun ∧ (machine.trace (watched true) sampleRun)[7]? = some [(1, []), (2, [3])] :=
  ⟨health_polling true (by decide +kernel), by decide +kernel⟩

/-- A reconnection with two callbacks. -/
def sampleReconnection : List Event :=
  [.onReconnect 1, .onReconnect 2, .startHealthPolling 30000, .answered 0 sampleHealthy (fun _ => []), .offline, .online]

/-- A stop while a poll is in flight does not end its chain, an answer that comes while offline
connects, and after a callback that unsubscribes itself the next one is not called. -/
theorem health_polling_fails :
    ¬ Truthful (machine.run (watched true) [.startHealthPolling 30000, .fire 1, .stopHealthPolling, .answered 2 sampleHealthy (fun _ => [])])
      (.resumed 3) ∧
    ¬ Truthful (machine.run (watched true) [.startHealthPolling 30000, .offline]) (.answered 0 sampleHealthy fun _ => []) ∧
    ¬ Truthful (machine.run (watched true) sampleReconnection) (.answered 2 sampleHealthy fun _ => [1]) := by
  refine ⟨fun h => ?_, fun h => ?_, fun h => ?_⟩
  · exact absurd (h.rests (by decide +kernel)) (by decide +kernel)
  · exact absurd (h.online (by decide +kernel)) (by decide +kernel)
  · have hnotified := h.notified (by decide +kernel) (by decide +kernel) (by decide +kernel)
    have hcalls : ((machine.run (watched true) sampleReconnection).store.step (.answered 2 sampleHealthy fun _ => [1])).2 = [(1, [1])] := by
      decide +kernel
    rw [hcalls] at hnotified
    rcases hnotified 2 (by decide +kernel) with hcount | ⟨before, caller, removed, after, heq, hmem, -⟩
    · exact absurd hcount (by decide)
    · cases before with
      | nil =>
        cases heq
        exact absurd hmem (by decide)
      | cons first before => simp at heq

end AgentWorkflow.Desktop.ConnectionPolling
