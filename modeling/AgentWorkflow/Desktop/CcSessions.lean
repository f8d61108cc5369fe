import AgentWorkflow.Desktop.CcWrapper

/-!
# One process per conversation

A process is live until its `error` or `exit` event was delivered. The lookup that
keeps a conversation to one process happens before the `await` of `startSession`,
the registration after it, so the two can be separated by another registration.
-/

namespace AgentWorkflow.Desktop.CcWrapper
open AgentWorkflow.Lib AgentWorkflow.Lib.Calendar

def LiveIn (procs : Finmap fun _ : SessionId => Process) (id : SessionId) (conv : Text) : Prop :=
  ∃ p, procs.lookup id = some p ∧ p.conversationId = conv ∧ p.reported = false

def Live (s : State) (id : SessionId) (conv : Text) : Prop := LiveIn s.procs id conv

/-- At most one live process per conversation, `byConv` leads to it, and it is registered. -/
structure OneLive (s : State) : Prop where
  unique : ∀ conv a b, Live s a conv → Live s b conv → a = b
  mapped : ∀ conv a, Live s a conv → s.byConv.lookup conv = some a
  registered : ∀ conv a, Live s a conv → a ∈ s.sessions

/-- What keeps `startSession` from discarding the entry of a live process. -/
structure Registered (s : State) : Prop where
  mapped : ∀ conv a, Live s a conv → s.byConv.lookup conv = some a
  session : ∀ conv a, Live s a conv → ∃ session, s.sessions.lookup a = some session ∧ session.phase ≠ .exited
  named : ∀ a ∈ s.procs, a ≠ []

/-- The operation registers no process for a conversation that has a live one. -/
def SpawnsAlone (s : State) : Op → Prop
  | .envBuilt k (.ok ()) (.ok ()) id => ∀ start, s.starts[k]? = some (some start) → id ≠ [] → id ∉ s.procs →
      ∀ a, ¬ Live s a start.conversationId
  | _ => True

theorem Registered.oneLive {s : State} (h : Registered s) : OneLive s where
  unique conv a b ha hb := by
    have hab := (h.mapped conv a ha).symm.trans (h.mapped conv b hb)
    exact Option.some.inj hab
  mapped := h.mapped
  registered conv a ha := by
    obtain ⟨session, hs, -⟩ := h.session conv a ha
    exact Finmap.mem_of_lookup_eq_some hs

theorem registered_init : Registered State.init where
  mapped := by
    rintro conv a ⟨p, hp, -⟩
    simp [State.init] at hp
  session := by
    rintro conv a ⟨p, hp, -⟩
    simp [State.init] at hp
  named a ha := absurd ha Finmap.notMem_empty

/-! ### Starting -/

theorem given_some {t : Text} (ht : t ≠ []) : given (some t) = some t := by
  simp [given, Option.filter, ht]

theorem Registered.existing {s : State} (h : Registered s) {conv : Text} {a : SessionId} (ha : Live s a conv) :
    s.existing conv = some a := by
  obtain ⟨session, hs, hphase⟩ := h.session conv a ha
  have hname : a ≠ [] := by
    obtain ⟨p, hp, -⟩ := ha
    exact h.named a (Finmap.mem_of_lookup_eq_some hp)
  simp [State.existing, h.mapped conv a ha, given_some hname, hs, hphase]

/-- Discarding the entry of a conversation without a live process, and whatever happens
to the waiting calls and the files. -/
theorem Registered.discard {s s' : State} (h : Registered s) {conv : Text} (hconv : ∀ a, ¬ Live s a conv)
    (hprocs : s'.procs = s.procs) (hsessions : s'.sessions = s.sessions)
    (hbyConv : s'.byConv = s.byConv.erase conv) : Registered s' where
  mapped c a ha := by
    have ha' : Live s a c := by simpa only [Live, hprocs] using ha
    have hne : c ≠ conv := by
      rintro rfl
      exact hconv a ha'
    rw [hbyConv, Finmap.lookup_erase_ne hne]
    exact h.mapped c a ha'
  session c a ha := by
    rw [hsessions]
    apply h.session c a
    simpa only [Live, hprocs] using ha
  named a ha := h.named a (by rwa [hprocs] at ha)

variable (parseUrl : Text → Option Url) (outPath : Text)

theorem startSession_cases (opts : StartSessionOpts) (env : StartEnv) (s : State) :
    (startSession parseUrl outPath opts env s).1 = s ∨
      ∃ conv, s.existing conv = none ∧ (startSession parseUrl outPath opts env s).1.procs = s.procs ∧
        (startSession parseUrl outPath opts env s).1.sessions = s.sessions ∧
        (startSession parseUrl outPath opts env s).1.byConv = s.byConv.erase conv := by
  unfold startSession
  cases validConversationId opts.conversationId with
  | none => exact Or.inl rfl
  | some conv =>
    cases hex : s.existing conv with
    | some id => exact Or.inl (by simp [hex])
    | none =>
      refine Or.inr ⟨conv, hex, ?_⟩
      simp only [hex]
      cases startArgs env conv opts with
      | error e => exact ⟨rfl, rfl, rfl⟩
      | ok start =>
        dsimp only
        split_ifs
        · exact ⟨rfl, rfl, rfl⟩
        · cases renderMcpConfig parseUrl env (mcpOpts env conv) with
          | error m => exact ⟨rfl, rfl, rfl⟩
          | ok doc => exact ⟨rfl, rfl, rfl⟩

theorem Registered.startSession {s : State} (h : Registered s) (opts : StartSessionOpts) (env : StartEnv) :
    Registered (startSession parseUrl outPath opts env s).1 := by
  rcases startSession_cases parseUrl outPath opts env s with hs | ⟨conv, hex, hprocs, hsessions, hbyConv⟩
  · rwa [hs]
  · have hconv : ∀ a, ¬ Live s a conv := by
      intro a ha
      rw [h.existing ha] at hex
      simp at hex
    exact h.discard hconv hprocs hsessions hbyConv

/-! ### Registering -/

/-- Registration of a new process. -/
def spawn (start : Start) (id : SessionId) (s : State) : State :=
  { s with
    sessions := s.sessions.insert id ⟨start.conversationId, start.cwd, start.model, .idle, false⟩
    byConv := s.byConv.insert start.conversationId id
    procs := s.procs.insert id ⟨start.conversationId, start.argv, start.mcpConfig, false⟩ }

theorem live_spawn_self (start : Start) (id : SessionId) (s : State) :
    Live (spawn start id s) id start.conversationId :=
  ⟨_, Finmap.lookup_insert _, rfl, rfl⟩

theorem live_spawn_of_ne {start : Start} {id a : SessionId} {s : State} {conv : Text} (hne : a ≠ id) :
    Live (spawn start id s) a conv ↔ Live s a conv := by
  simp only [Live, LiveIn, spawn, Finmap.lookup_insert_of_ne _ hne]

theorem Registered.spawn {s : State} (h : Registered s) {start : Start} {id : SessionId} (hid : id ≠ [])
    (halone : ∀ a, ¬ Live s a start.conversationId) : Registered (spawn start id s) where
  mapped conv a ha := by
    by_cases haid : a = id
    · subst haid
      obtain ⟨p, hp, hconv, -⟩ := ha
      rw [CcWrapper.spawn, Finmap.lookup_insert] at hp
      rw [← Option.some.inj hp] at hconv
      rw [← hconv]
      exact Finmap.lookup_insert _
    · have ha' := (live_spawn_of_ne haid).mp ha
      have hne : conv ≠ start.conversationId := by
        rintro rfl
        exact halone a ha'
      rw [CcWrapper.spawn, Finmap.lookup_insert_of_ne _ hne]
      exact h.mapped conv a ha'
  session conv a ha := by
    by_cases haid : a = id
    · subst haid
      exact ⟨_, Finmap.lookup_insert _, by simp⟩
    · rw [CcWrapper.spawn, Finmap.lookup_insert_of_ne _ haid]
      exact h.session conv a ((live_spawn_of_ne haid).mp ha)
  named a ha := by
    rcases Finmap.mem_insert.mp ha with rfl | ha
    · exact hid
    · exact h.named a ha

/-- A settled `buildCcEnv` registers a process or leaves all processes as they are. -/
theorem envBuilt_cases (k : ℕ) (built : Except (Text × Text) Unit) (spawned : Except Text Unit)
    (id : SessionId) (s : State) :
    (∃ start, s.starts[k]? = some (some start) ∧ id ≠ [] ∧ id ∉ s.procs ∧ built = .ok () ∧ spawned = .ok () ∧
        (envBuilt k built spawned id s).1 = spawn start id { s with starts := s.starts.set k none }) ∨
      ((envBuilt k built spawned id s).1.procs = s.procs ∧
        (envBuilt k built spawned id s).1.sessions = s.sessions ∧
        (envBuilt k built spawned id s).1.byConv = s.byConv) := by
  unfold envBuilt
  rcases hk : s.starts[k]? with _ | _ | start
  · exact Or.inr ⟨rfl, rfl, rfl⟩
  · exact Or.inr ⟨rfl, rfl, rfl⟩
  · dsimp only
    split_ifs with hid
    · exact Or.inr ⟨rfl, rfl, rfl⟩
    · rw [not_or] at hid
      cases built with
      | error e => exact Or.inr ⟨rfl, rfl, rfl⟩
      | ok u =>
        cases spawned with
        | error m => exact Or.inr ⟨rfl, rfl, rfl⟩
        | ok v => exact Or.inl ⟨start, rfl, hid.1, hid.2, rfl, rfl, rfl⟩

/-! ### The end of a process -/

theorem live_report_self (id : SessionId) (p : Process) (s : State) (conv : Text) :
    ¬ Live (report id p s) id conv := by
  rintro ⟨q, hq, -, hlive⟩
  rw [report, unregister, Finmap.lookup_insert] at hq
  rw [← Option.some.inj hq] at hlive
  simp at hlive

theorem live_report_of_ne {id a : SessionId} {p : Process} {s : State} {conv : Text} (hne : a ≠ id) :
    Live (report id p s) a conv ↔ Live s a conv := by
  simp only [Live, LiveIn, report, unregister, Finmap.lookup_insert_of_ne _ hne]

/-- The clean-up of one process never removes the entries of another one. -/
theorem Registered.report {s : State} (h : Registered s) {id : SessionId} {p : Process} (hid : id ≠ []) :
    Registered (report id p s) where
  mapped conv a ha := by
    have hne : a ≠ id := by
      rintro rfl
      exact live_report_self a p s conv ha
    have hold := h.mapped conv a ((live_report_of_ne hne).mp ha)
    simp only [CcWrapper.report, unregister]
    split_ifs with hconv
    · rw [Finmap.lookup_erase_ne, hold]
      rintro rfl
      rw [hold] at hconv
      exact hne (Option.some.inj hconv)
    · exact hold
  session conv a ha := by
    have hne : a ≠ id := by
      rintro rfl
      exact live_report_self a p s conv ha
    rw [CcWrapper.report, unregister, Finmap.lookup_erase_ne hne]
    exact h.session conv a ((live_report_of_ne hne).mp ha)
  named a ha := by
    rcases Finmap.mem_insert.mp ha with rfl | ha
    · exact hid
    · exact h.named a ha

theorem Registered.procError {s : State} (h : Registered s) (id code message : Text) :
    Registered (procError id code message s).1 := by
  unfold CcWrapper.procError
  cases hp : s.procs.lookup id with
  | none => exact h
  | some p => exact h.report (h.named id (Finmap.mem_of_lookup_eq_some hp))

theorem Registered.procExit {s : State} (h : Registered s) (id : Text) : Registered (procExit id s).1 := by
  unfold CcWrapper.procExit
  cases hp : s.procs.lookup id with
  | none => exact h
  | some p => exact h.report (h.named id (Finmap.mem_of_lookup_eq_some hp))

/-! ### Stopping and sending -/

/-- A change of one session that never makes it `exited`. -/
theorem Registered.modify {s : State} (h : Registered s) (id : SessionId) {f : CcSession → CcSession}
    (hf : ∀ session, session.phase ≠ .exited → (f session).phase ≠ .exited) : Registered (modify id f s) := by
  unfold CcWrapper.modify
  cases hs : s.sessions.lookup id with
  | none => exact h
  | some session =>
    refine ⟨h.mapped, ?_, h.named⟩
    intro conv a ha
    obtain ⟨old, hold, hphase⟩ := h.session conv a ha
    by_cases haid : a = id
    · subst haid
      rw [hs] at hold
      refine ⟨f session, Finmap.lookup_insert _, hf session ?_⟩
      rwa [Option.some.inj hold]
    · exact ⟨old, (Finmap.lookup_insert_of_ne _ haid).trans hold, hphase⟩

theorem CcSession.stop_phase (session : CcSession) : session.stop.phase = session.phase := by
  unfold CcSession.stop
  split_ifs <;> rfl

theorem Registered.stopSession {s : State} (h : Registered s) (id : SessionId) : Registered (stopSession id s) := by
  apply h.modify
  intro session hphase
  rwa [CcSession.stop_phase]

theorem Registered.stopAllSessions {s : State} (h : Registered s) : Registered (stopAllSessions s) := by
  unfold CcWrapper.stopAllSessions
  generalize s.sessions.keys.sort (· ≤ ·) = ids
  induction ids generalizing s with
  | nil => exact h
  | cons id ids ih => exact ih (h.stopSession id)

/-! ### Runs -/

theorem readConfig_state (id : SessionId) (s : State) : (readConfig id s).1 = s := by
  unfold readConfig
  cases s.procs.lookup id with
  | none => rfl
  | some p => cases hm : p.mcpConfig with
    | none => simp [hm]
    | some path => simp [hm]

theorem Registered.step {s : State} (h : Registered s) {op : Op} (halone : SpawnsAlone s op) :
    Registered (step parseUrl outPath s op).1 := by
  cases op with
  | startSession opts env => exact h.startSession parseUrl outPath opts env
  | envBuilt k built spawned id =>
    rcases envBuilt_cases k built spawned id s with ⟨start, hk, hid, hfresh, rfl, rfl, heq⟩ | ⟨hp, hs, hb⟩
    · simp only [CcWrapper.step, heq]
      have h' : Registered { s with starts := s.starts.set k none } := ⟨h.mapped, h.session, h.named⟩
      exact h'.spawn hid (halone start hk hid hfresh)
    · refine ⟨?_, ?_, ?_⟩
      · intro conv a ha
        simp only [CcWrapper.step, Live, hp, hb] at ha ⊢
        exact h.mapped conv a ha
      · intro conv a ha
        simp only [CcWrapper.step, Live, hp, hs] at ha ⊢
        exact h.session conv a ha
      · intro a ha
        simp only [CcWrapper.step, hp] at ha
        exact h.named a ha
  | procError id code message => exact h.procError id code message
  | procExit id => exact h.procExit id
  | stopSession id => exact h.stopSession id
  | stopAllSessions => exact h.stopAllSessions
  | messageSent id => exact h.modify id (fun _ _ => by simp)
  | readConfig id =>
    simp only [CcWrapper.step, readConfig_state]
    exact h

/-- A registration next to a live process leaves two of them. -/
theorem spawnsAlone_of_oneLive {s : State} {op : Op} (h : OneLive (step parseUrl outPath s op).1) :
    SpawnsAlone s op := by
  unfold SpawnsAlone
  split
  · rename_i k id
    intro start hk hid hfresh a ha
    have heq : (step parseUrl outPath s (.envBuilt k (.ok ()) (.ok ()) id)).1 =
        spawn start id { s with starts := s.starts.set k none } := by
      simp [step, envBuilt, hk, hid, hfresh, resume, spawn]
    rw [heq] at h
    have hne : a ≠ id := by
      rintro rfl
      obtain ⟨p, hp, -⟩ := ha
      exact hfresh (Finmap.mem_of_lookup_eq_some hp)
    have hlive : Live (spawn start id { s with starts := s.starts.set k none }) a start.conversationId :=
      (live_spawn_of_ne hne).mpr ha
    exact hne (h.unique _ a id hlive (live_spawn_self start id _))
  · trivial

theorem one_live_process_exact (ops : List Op) :
    (∀ before after, ops = before ++ after →
        OneLive ((machine parseUrl outPath).run State.init before)) ↔
      ∀ before op after, ops = before ++ op :: after →
        SpawnsAlone ((machine parseUrl outPath).run State.init before) op :=
  (machine parseUrl outPath).run_exact registered_init (fun _ => Registered.oneLive)
    (fun _ _ h => h.step parseUrl outPath) (fun _ _ _ => spawnsAlone_of_oneLive parseUrl outPath) ops

/-- An environment without an MCP server. -/
def plainEnv : StartEnv :=
  { processCwd := "/".toList, invocation := .ok ⟨"agent".toList, []⟩
    protocol := some "passthrough".toList, remoteUrl := []
    remoteName := [], remoteToken := [], remoteOptIn := false, endpoint := none, writeFault := none }

/-- Both calls for `c` pass the lookup before either registers its session. -/
theorem concurrent_starts_spawn_twice :
    ¬ OneLive ((machine (fun _ => none) "config".toList).run State.init
      [.startSession ⟨some "c".toList, none, none, none⟩ plainEnv,
       .startSession ⟨some "c".toList, none, none, none⟩ plainEnv,
       .envBuilt 0 (.ok ()) (.ok ()) "s".toList,
       .envBuilt 1 (.ok ()) (.ok ()) "t".toList]) := by
  intro h
  have hs := h.unique "c".toList "s".toList "t".toList
    ⟨⟨"c".toList, [], none, false⟩, by decide +kernel, rfl, rfl⟩
    ⟨⟨"c".toList, [], none, false⟩, by decide +kernel, rfl, rfl⟩
  exact absurd hs (by decide)

end AgentWorkflow.Desktop.CcWrapper
