import AgentWorkflow.Desktop.CcWrapper

/-!
# Which MCP configuration an agent process reads

All sessions render to one file, which holds the document of the last call of
`startSession` that rendered. A process reads it at some later time.
-/

namespace AgentWorkflow.Desktop.CcWrapper
open AgentWorkflow.Lib AgentWorkflow.Lib.Calendar

/-- The conversation `server.ts` binds a request with these headers to. -/
def requestConvId (headers : Record) : Text := (headers.lookup convHeader).getD []

/-- Every server entry carries the conversation, and so binds requests to it. -/
def Bound (conv : Text) (doc : McpConfigDoc) : Prop :=
  ∀ name entry, doc.lookup name = some entry →
    entry.headers.lookup convHeader = some conv ∧ requestConvId entry.headers = conv

/-- The last configuration rendered so far is one of this conversation. -/
def LastRendered (conv : Text) : List Event → Prop :=
  Since (fun e => e.rendered = some conv) (fun e => ∃ c, e.rendered = some c ∧ c ≠ conv)

theorem lastRendered_snoc {conv c : Text} {h : List Event} {e : Event} (he : e.rendered = some c) :
    LastRendered conv (h ++ [e]) ↔ conv = c := by
  constructor
  · intro hl
    rcases since_of_snoc hl with hp | ⟨-, hq⟩
    · rw [he] at hp
      exact (Option.some.inj hp).symm
    · by_contra hne
      exact hq ⟨c, he, fun hc => hne hc.symm⟩
  · rintro rfl
    exact since_snoc_self h he

theorem lastRendered_quiet {conv : Text} {h : List Event} {e : Event} (he : e.rendered = none) :
    LastRendered conv (h ++ [e]) ↔ LastRendered conv h := by
  constructor
  · intro hl
    rcases since_of_snoc hl with hp | ⟨hl, -⟩
    · rw [he] at hp
      simp at hp
    · exact hl
  · intro hl
    apply since_snoc hl
    rintro ⟨c, hc, -⟩
    rw [he] at hc
    simp at hc

/-! ### The rendered document -/

theorem validConversationId_ne_nil {id : Option Text} {conv : Text} (h : validConversationId id = some conv) :
    conv ≠ [] := by
  obtain ⟨-, hp⟩ := Option.filter_eq_some_iff.mp h
  simp only [Bool.and_eq_true, decide_eq_true_eq] at hp
  rintro rfl
  simp at hp

theorem endpointHeaders_conv {e : McpHttpEndpoint} {conv : Text} (he : e.conversationId = some conv)
    (hconv : conv ≠ []) : (endpointHeaders e).lookup convHeader = some conv := by
  have hgiven : given (some conv) = some conv := by simp [given, Option.filter, hconv]
  simp only [endpointHeaders, he, hgiven]
  exact Finmap.lookup_insert _

section Render
variable {parseUrl : Text → Option Url}

/-- An entry built for an endpoint carries the endpoint's headers. -/
def BuiltFor (e : McpHttpEndpoint) (r : Except Text McpHttpServerEntry) : Prop :=
  ∀ entry, r = .ok entry → entry.headers = endpointHeaders e

theorem builtFor_ide (e : McpHttpEndpoint) : BuiltFor e (buildIdeEntry parseUrl e) := by
  intro entry h
  unfold buildIdeEntry at h
  cases hu : parseHttpUrl parseUrl e.url with
  | error m => simp [hu] at h
  | ok u =>
    simp only [hu] at h
    split_ifs at h
    rw [← Except.ok.inj h]
    rfl

theorem builtFor_remote (allow optIn : Bool) (e : RemoteMcpEndpoint) :
    BuiltFor e.toMcpHttpEndpoint (buildRemoteEntry parseUrl allow optIn e) := by
  intro entry h
  unfold buildRemoteEntry at h
  split_ifs at h
  cases hu : parseHttpUrl parseUrl e.url with
  | error m => simp [hu] at h
  | ok u =>
    simp only [hu] at h
    split_ifs at h
    rw [← Except.ok.inj h]
    rfl

/-- A document whose entries all belong to one conversation, and that has one. -/
structure Document (conv : Text) (doc : McpConfigDoc) : Prop where
  headers : ∀ name entry, doc.lookup name = some entry → entry.headers.lookup convHeader = some conv
  inhabited : ∃ name entry, doc.lookup name = some entry

theorem Document.insert {conv : Text} {doc : McpConfigDoc} {name : Text} {entry : McpHttpServerEntry}
    (hdoc : ∀ name entry, doc.lookup name = some entry → entry.headers.lookup convHeader = some conv)
    (hentry : entry.headers.lookup convHeader = some conv) : Document conv (doc.insert name entry) where
  headers n x hx := by
    by_cases hn : n = name
    · subst hn
      rw [Finmap.lookup_insert] at hx
      rwa [← Option.some.inj hx]
    · rw [Finmap.lookup_insert_of_ne _ hn] at hx
      exact hdoc n x hx
  inhabited := ⟨name, entry, Finmap.lookup_insert _⟩

theorem Document.bound_iff {conv c : Text} {doc : McpConfigDoc} (h : Document c doc) :
    Bound conv doc ↔ conv = c := by
  constructor
  · intro hb
    obtain ⟨name, entry, he⟩ := h.inhabited
    have hc := (hb name entry he).1
    rw [h.headers name entry he] at hc
    exact (Option.some.inj hc).symm
  · rintro rfl name entry he
    have hc := h.headers name entry he
    exact ⟨hc, by rw [requestConvId, hc]; rfl⟩

/-- Endpoints of one conversation give a document of that conversation. -/
theorem buildMcpConfig_document {optIn : Bool} {opts : McpConfigRenderOpts} {doc : McpConfigDoc} {conv : Text}
    (hconv : conv ≠ []) (hide : ∀ e ∈ opts.awpIde, e.conversationId = some conv)
    (hremote : ∀ e ∈ opts.remoteMcp, e.conversationId = some conv)
    (hsome : ¬ (opts.awpIde = none ∧ opts.remoteMcp = none))
    (h : buildMcpConfig parseUrl optIn opts = .ok doc) : Document conv doc := by
  have hnil : ∀ name entry, (∅ : McpConfigDoc).lookup name = some entry →
      entry.headers.lookup convHeader = some conv := by
    intro name entry he
    simp at he
  have hideDoc : ∀ e ∈ opts.awpIde, ∀ entry, buildIdeEntry parseUrl e = .ok entry →
      entry.headers.lookup convHeader = some conv := by
    intro e he entry hb
    rw [builtFor_ide e entry hb]
    exact endpointHeaders_conv (hide e he) hconv
  have hremoteDoc : ∀ e ∈ opts.remoteMcp, ∀ entry,
      buildRemoteEntry parseUrl opts.allowRemoteMcp optIn e = .ok entry →
      entry.headers.lookup convHeader = some conv := by
    intro e he entry hb
    rw [builtFor_remote _ _ e entry hb]
    exact endpointHeaders_conv (hremote e he) hconv
  unfold buildMcpConfig at h
  cases hi : opts.awpIde with
  | none =>
    cases hr : opts.remoteMcp with
    | none => exact absurd ⟨hi, hr⟩ hsome
    | some r =>
      cases hb : buildRemoteEntry parseUrl opts.allowRemoteMcp optIn r with
      | error m => simp [hi, hr, hb, bind, Except.bind] at h
      | ok entry =>
        simp [hi, hr, hb, bind, Except.bind, pure, Except.pure] at h
        rw [← h]
        exact Document.insert hnil (hremoteDoc r hr entry hb)
  | some e =>
    cases hb : buildIdeEntry parseUrl e with
    | error m => simp [hi, hb, bind, Except.bind] at h
    | ok entry =>
      have hfirst : Document _ (Finmap.insert "awp-ide".toList entry ∅) := Document.insert hnil (hideDoc e hi entry hb)
      cases hr : opts.remoteMcp with
      | none =>
        simp [hi, hr, hb, bind, Except.bind, pure, Except.pure] at h
        rw [← h]
        exact hfirst
      | some r =>
        cases hb' : buildRemoteEntry parseUrl opts.allowRemoteMcp optIn r with
        | error m => simp [hi, hr, hb, hb', bind, Except.bind] at h
        | ok entry' =>
          simp [hi, hr, hb, hb', bind, Except.bind, pure, Except.pure] at h
          rw [← h]
          exact Document.insert hfirst.headers (hremoteDoc r hr entry' hb')

theorem renderMcpConfig_document {env : StartEnv} {doc : McpConfigDoc} {conv : Text} (hconv : conv ≠ [])
    (hsome : ¬ ((mcpOpts env conv).awpIde = none ∧ (mcpOpts env conv).remoteMcp = none))
    (h : renderMcpConfig parseUrl env (mcpOpts env conv) = .ok doc) : Document conv doc := by
  unfold renderMcpConfig at h
  cases hb : buildMcpConfig parseUrl env.remoteOptIn (mcpOpts env conv) with
  | error m => simp [hb] at h
  | ok d =>
    cases hw : env.writeFault with
    | some m => simp [hb, hw] at h
    | none =>
      simp only [hb, hw] at h
      rw [← Except.ok.inj h]
      refine buildMcpConfig_document hconv ?_ ?_ hsome hb
      · intro e he
        simp only [mcpOpts, Option.mem_def, Option.map_eq_some_iff] at he
        obtain ⟨x, -, rfl⟩ := he
        rfl
      · intro e he
        simp only [mcpOpts, Option.mem_def] at he
        split_ifs at he
        rw [← Option.some.inj he]

end Render

/-! ### The file -/

variable (parseUrl : Text → Option Url) (outPath : Text)

/-- The file holds the last rendered document, and exists once a call has rendered. -/
structure Rendered (h : List Event) (s : State) : Prop where
  file : ∀ doc, s.files.lookup outPath = some doc → ∀ conv, Bound conv doc ↔ LastRendered conv h
  waiting : ∀ start, some start ∈ s.starts → ∀ path ∈ start.mcpConfig, path = outPath ∧ outPath ∈ s.files
  spawned : ∀ id p, s.procs.lookup id = some p → ∀ path ∈ p.mcpConfig, path = outPath ∧ outPath ∈ s.files

variable {outPath}

theorem rendered_init : Rendered outPath [] State.init where
  file doc hd := by simp [State.init] at hd
  waiting start hs := by simp [State.init] at hs
  spawned id p hp := by simp [State.init] at hp

/-- A step that renders nothing; a new process is one that was waiting. -/
theorem Rendered.quiet {h : List Event} {s s' : State} {e : Event} (hr : Rendered outPath h s)
    (he : e.rendered = none) (hfiles : s'.files = s.files)
    (hstarts : ∀ start, some start ∈ s'.starts → some start ∈ s.starts ∨ start.mcpConfig = none)
    (hprocs : ∀ id p, s'.procs.lookup id = some p →
      (∃ q, s.procs.lookup id = some q ∧ q.mcpConfig = p.mcpConfig) ∨
        ∃ start, some start ∈ s.starts ∧ start.mcpConfig = p.mcpConfig) :
    Rendered outPath (h ++ [e]) s' where
  file doc hd conv := by
    rw [hfiles] at hd
    rw [lastRendered_quiet he]
    exact hr.file doc hd conv
  waiting start hs path hp := by
    rw [hfiles]
    rcases hstarts start hs with hs | hs
    · exact hr.waiting start hs path hp
    · rw [hs] at hp
      simp at hp
  spawned id p hp path hpath := by
    rw [hfiles]
    rcases hprocs id p hp with ⟨q, hq, heq⟩ | ⟨start, hs, heq⟩
    · exact hr.spawned id q hq path (by rwa [heq])
    · exact hr.waiting start hs path (by rwa [heq])

/-- The same when neither the waiting calls nor the processes' files change. -/
theorem Rendered.still {h : List Event} {s s' : State} {e : Event} (hr : Rendered outPath h s)
    (he : e.rendered = none) (hfiles : s'.files = s.files) (hstarts : s'.starts = s.starts)
    (hprocs : ∀ id p, s'.procs.lookup id = some p → ∃ q, s.procs.lookup id = some q ∧ q.mcpConfig = p.mcpConfig) :
    Rendered outPath (h ++ [e]) s' := by
  apply hr.quiet he hfiles
  · intro start hs
    rw [hstarts] at hs
    exact Or.inl hs
  · intro id p hp
    exact Or.inl (hprocs id p hp)

theorem startArgs_mcpConfig {env : StartEnv} {conv : Text} {opts : StartSessionOpts} {start : Start}
    (h : startArgs env conv opts = .ok start) : start.mcpConfig = none := by
  unfold startArgs at h
  dsimp only at h
  split at h
  · simp at h
  · cases hi : env.invocation with
    | error code => simp [hi] at h
    | ok invocation =>
      simp only [hi] at h
      split at h
      · simp at h
      · generalize protocolArgs (trim (env.protocol.getD "stream-json".toList)) = protocol at h
        cases protocol with
        | error e => simp at h
        | ok protocol =>
          cases hres : resumeArgs opts.ccSessionId with
          | error e => simp [hres] at h
          | ok resume =>
            simp only [hres] at h
            rw [← Except.ok.inj h]

theorem Rendered.startSession {h : List Event} {s : State} (hr : Rendered outPath h s) (opts : StartSessionOpts)
    (env : StartEnv) :
    Rendered outPath (h ++ [(startSession parseUrl outPath opts env s).2])
      (startSession parseUrl outPath opts env s).1 := by
  unfold CcWrapper.startSession
  cases hv : validConversationId opts.conversationId with
  | none => exact hr.still rfl rfl rfl fun id p hp => ⟨p, hp, rfl⟩
  | some conv =>
    cases hex : s.existing conv with
    | some id => simpa only [hex] using hr.still rfl rfl rfl fun id p hp => ⟨p, hp, rfl⟩
    | none =>
      simp only [hex]
      cases ha : startArgs env conv opts with
      | error e => exact hr.still rfl rfl rfl fun id p hp => ⟨p, hp, rfl⟩
      | ok start =>
        dsimp only
        split_ifs with hmcp
        · refine hr.quiet rfl rfl ?_ fun id p hp => Or.inl ⟨p, hp, rfl⟩
          intro x hx
          rcases List.mem_append.mp hx with hx | hx
          · exact Or.inl hx
          · rw [Option.some.inj (List.mem_singleton.mp hx)]
            exact Or.inr (startArgs_mcpConfig ha)
        · cases hdoc : renderMcpConfig parseUrl env (mcpOpts env conv) with
          | error m => exact hr.still rfl rfl rfl fun id p hp => ⟨p, hp, rfl⟩
          | ok doc =>
            have hmem : outPath ∈ s.files.insert outPath doc := Finmap.mem_insert.mpr (Or.inl rfl)
            refine ⟨?_, ?_, ?_⟩
            · intro d hd c
              rw [Finmap.lookup_insert] at hd
              rw [← Option.some.inj hd, lastRendered_snoc rfl,
                (renderMcpConfig_document (validConversationId_ne_nil hv) hmcp hdoc).bound_iff]
            · intro x hx path hp
              rcases List.mem_append.mp hx with hx | hx
              · exact ⟨(hr.waiting x hx path hp).1, hmem⟩
              · rw [Option.some.inj (List.mem_singleton.mp hx)] at hp
                exact ⟨(Option.some.inj hp).symm, hmem⟩
            · intro id p hp path hpath
              exact ⟨(hr.spawned id p hp path hpath).1, hmem⟩

theorem Rendered.envBuilt {h : List Event} {s : State} (hr : Rendered outPath h s) (k : ℕ)
    (built : Except (Text × Text) Unit) (spawned : Except Text Unit) (id : SessionId) :
    Rendered outPath (h ++ [(envBuilt k built spawned id s).2]) (envBuilt k built spawned id s).1 := by
  have hset : ∀ x, some x ∈ s.starts.set k none → some x ∈ s.starts ∨ x.mcpConfig = none := by
    intro x hx
    rcases List.mem_or_eq_of_mem_set hx with hx | hx
    · exact Or.inl hx
    · simp at hx
  have hsame : ∀ a p, s.procs.lookup a = some p → (∃ q, s.procs.lookup a = some q ∧ q.mcpConfig = p.mcpConfig) ∨
      ∃ start, some start ∈ s.starts ∧ start.mcpConfig = p.mcpConfig :=
    fun a p hp => Or.inl ⟨p, hp, rfl⟩
  unfold CcWrapper.envBuilt
  rcases hk : s.starts[k]? with _ | _ | start
  · exact hr.still rfl rfl rfl fun id p hp => ⟨p, hp, rfl⟩
  · exact hr.still rfl rfl rfl fun id p hp => ⟨p, hp, rfl⟩
  · dsimp only
    split_ifs with hid
    · exact hr.still rfl rfl rfl fun id p hp => ⟨p, hp, rfl⟩
    · cases built with
      | error e => exact hr.quiet rfl rfl hset hsame
      | ok u =>
        cases spawned with
        | error m => exact hr.quiet rfl rfl hset hsame
        | ok v =>
          refine hr.quiet rfl rfl hset ?_
          intro a p hp
          by_cases ha : a = id
          · subst ha
            simp only [resume, Finmap.lookup_insert] at hp
            rw [← Option.some.inj hp]
            exact Or.inr ⟨start, List.mem_of_getElem? hk, rfl⟩
          · simp only [resume, Finmap.lookup_insert_of_ne _ ha] at hp
            exact hsame a p hp

theorem Rendered.report {h : List Event} {s : State} (hr : Rendered outPath h s) {e : Event}
    (he : e.rendered = none) {id : SessionId} {p : Process} (hp : s.procs.lookup id = some p) :
    Rendered outPath (h ++ [e]) (report id p s) := by
  refine hr.still he rfl rfl ?_
  intro a q hq
  by_cases ha : a = id
  · subst ha
    simp only [CcWrapper.report, unregister, Finmap.lookup_insert] at hq
    rw [← Option.some.inj hq]
    exact ⟨p, hp, rfl⟩
  · simp only [CcWrapper.report, unregister, Finmap.lookup_insert_of_ne _ ha] at hq
    exact ⟨q, hq, rfl⟩

/-- What a change of sessions leaves alone. -/
def SameFiles (s s' : State) : Prop := s'.files = s.files ∧ s'.starts = s.starts ∧ s'.procs = s.procs

theorem sameFiles_modify (id : SessionId) (f : CcSession → CcSession) (s : State) : SameFiles s (modify id f s) := by
  unfold modify
  cases s.sessions.lookup id with
  | none => exact ⟨rfl, rfl, rfl⟩
  | some session => exact ⟨rfl, rfl, rfl⟩

theorem sameFiles_stopAll (s : State) : SameFiles s (stopAllSessions s) := by
  unfold stopAllSessions
  generalize s.sessions.keys.sort (· ≤ ·) = ids
  induction ids generalizing s with
  | nil => exact ⟨rfl, rfl, rfl⟩
  | cons id ids ih =>
    obtain ⟨hf, hs, hp⟩ := ih (stopSession id s)
    obtain ⟨hf', hs', hp'⟩ := sameFiles_modify id CcSession.stop s
    exact ⟨hf.trans hf', hs.trans hs', hp.trans hp'⟩

theorem Rendered.of_same {h : List Event} {s s' : State} (hr : Rendered outPath h s) (hs : SameFiles s s') :
    Rendered outPath (h ++ [({} : Event)]) s' := by
  obtain ⟨hfiles, hstarts, hprocs⟩ := hs
  refine hr.still rfl hfiles hstarts ?_
  intro id p hp
  rw [hprocs] at hp
  exact ⟨p, hp, rfl⟩

theorem Rendered.step {h : List Event} {s : State} (hr : Rendered outPath h s) (op : Op) :
    Rendered outPath (h ++ [(step parseUrl outPath s op).2]) (step parseUrl outPath s op).1 := by
  cases op with
  | startSession opts env => exact hr.startSession parseUrl opts env
  | envBuilt k built spawned id => exact hr.envBuilt k built spawned id
  | procError id code message =>
    simp only [CcWrapper.step, CcWrapper.procError]
    cases hp : s.procs.lookup id with
    | none => exact hr.still rfl rfl rfl fun id p hp => ⟨p, hp, rfl⟩
    | some p => exact hr.report rfl hp
  | procExit id =>
    simp only [CcWrapper.step, CcWrapper.procExit]
    cases hp : s.procs.lookup id with
    | none => exact hr.still rfl rfl rfl fun id p hp => ⟨p, hp, rfl⟩
    | some p => exact hr.report rfl hp
  | stopSession id => exact hr.of_same (sameFiles_modify id _ s)
  | stopAllSessions => exact hr.of_same (sameFiles_stopAll s)
  | messageSent id => exact hr.of_same (sameFiles_modify id _ s)
  | readConfig id =>
    simp only [CcWrapper.step, readConfig]
    cases hp : s.procs.lookup id with
    | none => exact hr.still rfl rfl rfl fun id p hp => ⟨p, hp, rfl⟩
    | some p =>
      cases hm : p.mcpConfig with
      | none => simpa only [hm] using hr.still rfl rfl rfl fun id p hp => ⟨p, hp, rfl⟩
      | some path => simpa only [hm] using hr.still rfl rfl rfl fun id p hp => ⟨p, hp, rfl⟩

/-! ### Reading -/

/-- The process found a document, and it is one of its conversation. -/
def ReadsOwn (conv : Text) (doc : Option McpConfigDoc) : Prop := ∃ d, doc = some d ∧ Bound conv d

/-- A read finds the conversation's own document exactly when that was rendered last. -/
def ReadExact (earlier : List Event) (e : Event) : Prop :=
  ∀ id conv doc, e.read = some (id, conv, doc) → (ReadsOwn conv doc ↔ LastRendered conv earlier)

theorem read_startSession (opts : StartSessionOpts) (env : StartEnv) (s : State) :
    (startSession parseUrl outPath opts env s).2.read = none := by
  unfold startSession
  cases validConversationId opts.conversationId with
  | none => rfl
  | some conv =>
    cases hex : s.existing conv with
    | some id => simp [hex]
    | none =>
      simp only [hex]
      cases startArgs env conv opts with
      | error e => rfl
      | ok start =>
        dsimp only
        split_ifs
        · rfl
        · cases renderMcpConfig parseUrl env (mcpOpts env conv) with
          | error m => rfl
          | ok doc => rfl

theorem read_envBuilt (k : ℕ) (built : Except (Text × Text) Unit) (spawned : Except Text Unit)
    (id : SessionId) (s : State) : (envBuilt k built spawned id s).2.read = none := by
  unfold envBuilt
  rcases s.starts[k]? with _ | _ | start
  · rfl
  · rfl
  · dsimp only
    split_ifs
    · rfl
    · cases built with
      | error e => rfl
      | ok u => cases spawned with
        | error m => rfl
        | ok v => rfl

theorem read_procError (id code message : Text) (s : State) : (procError id code message s).2.read = none := by
  unfold procError
  cases s.procs.lookup id with
  | none => rfl
  | some p => rfl

theorem read_procExit (id : Text) (s : State) : (procExit id s).2.read = none := by
  unfold procExit
  cases s.procs.lookup id with
  | none => rfl
  | some p => rfl

theorem read_readConfig {s : State} {op : Op} {r : SessionId × Text × Option McpConfigDoc}
    (h : (CcWrapper.step parseUrl outPath s op).2.read = some r) : ∃ id, op = .readConfig id := by
  cases op with
  | readConfig id => exact ⟨id, rfl⟩
  | startSession opts env =>
    have hnone : (startSession parseUrl outPath opts env s).2.read = none := read_startSession parseUrl opts env s
    exact absurd (hnone.symm.trans h) (by simp)
  | envBuilt k built spawned id =>
    have hnone := read_envBuilt k built spawned id s
    exact absurd (hnone.symm.trans h) (by simp)
  | procError id code message => exact absurd ((read_procError id code message s).symm.trans h) (by simp)
  | procExit id => exact absurd ((read_procExit id s).symm.trans h) (by simp)
  | stopSession id => simp [CcWrapper.step] at h
  | stopAllSessions => simp [CcWrapper.step] at h
  | messageSent id => simp [CcWrapper.step] at h

theorem Rendered.read_exact {h : List Event} {s : State} (hr : Rendered outPath h s) (op : Op) :
    ReadExact h (CcWrapper.step parseUrl outPath s op).2 := by
  intro id conv doc hread
  obtain ⟨a, rfl⟩ := read_readConfig parseUrl hread
  simp only [CcWrapper.step, readConfig] at hread
  cases hp : s.procs.lookup a with
  | none => simp [hp] at hread
  | some p =>
    cases hm : p.mcpConfig with
    | none => simp [hp, hm] at hread
    | some path =>
      simp only [hp, hm, Option.some.injEq, Prod.mk.injEq] at hread
      obtain ⟨-, rfl, rfl⟩ := hread
      obtain ⟨rfl, hmem⟩ := hr.spawned a p hp path hm
      obtain ⟨d, hd⟩ := Finmap.mem_iff.mp hmem
      rw [hd, ← hr.file d hd]
      constructor
      · rintro ⟨d', hd', hb⟩
        rwa [Option.some.inj hd']
      · intro hb
        exact ⟨d, rfl, hb⟩

theorem process_reads_own_config_exact (ops : List Op) :
    Everywhere ReadExact ((machine parseUrl outPath).trace State.init ops) := by
  have hinv := (machine parseUrl outPath).history_invariant
    (P := fun h s => Rendered outPath h s ∧ Everywhere ReadExact h) (s := State.init)
    ⟨rendered_init, everywhere_nil⟩
    (fun h s op hs => ⟨hs.1.step parseUrl op, hs.2.snoc (hs.1.read_exact parseUrl op)⟩) ops
  exact hinv.2

def ideUrl : Text := "http://127.0.0.1:4100/mcp".toList

def parseIdeUrl (raw : Text) : Option Url :=
  if raw = ideUrl then some ⟨"http:".toList, [], [], "127.0.0.1".toList, ideUrl⟩ else none

/-- An environment with the local MCP server, without a token. -/
def ideEnv : StartEnv :=
  { processCwd := "/".toList, invocation := .ok ⟨"agent".toList, []⟩
    protocol := some "passthrough".toList, remoteUrl := []
    remoteName := [], remoteToken := [], remoteOptIn := false, endpoint := some (ideUrl, none), writeFault := none }

def ideDoc (conv : Text) : McpConfigDoc :=
  (∅ : McpConfigDoc).insert "awp-ide".toList ⟨"http".toList, ideUrl, (∅ : Record).insert convHeader conv⟩

/-- A start for `b` renders while the one for `a` waits for `buildCcEnv`. -/
theorem overwritten_config_read :
    ¬ ∀ e ∈ (machine parseIdeUrl "config".toList).trace State.init
        [.startSession ⟨some "a".toList, none, none, none⟩ ideEnv,
         .startSession ⟨some "b".toList, none, none, none⟩ ideEnv,
         .envBuilt 0 (.ok ()) (.ok ()) "s".toList, .readConfig "s".toList],
      ∀ id conv doc, e.read = some (id, conv, doc) → ReadsOwn conv doc := by
  intro h
  obtain ⟨d, hd, hb⟩ := h { read := some ("s".toList, "a".toList, some (ideDoc "b".toList)) }
    (by decide +kernel) _ _ _ rfl
  have ha := (hb "awp-ide".toList _ (by rw [← Option.some.inj hd]; exact Finmap.lookup_insert _)).1
  exact absurd ha (by decide +kernel)

end AgentWorkflow.Desktop.CcWrapper
