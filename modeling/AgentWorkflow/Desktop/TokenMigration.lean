import AgentWorkflow.Lib.Calendar
import AgentWorkflow.Lib.Index
import AgentWorkflow.Lib.JsText
import AgentWorkflow.Lib.Machine

/-!
# Migration of the legacy token files (`electron/ipc/handlers.ts`, `electron/utils/legacy-auth-migration.ts`)

At each start two passes read `auth.json` and `api_token`, store a token they find
and then clean the file up. `bridge:save-token` stores the user's token and removes
`api_token`. Every credential operation and every file operation may fail, and a
restart ends all coroutines wherever they are. `held` lists the values the secure
store has had; the code has no such field.
-/

namespace AgentWorkflow.Desktop.TokenMigration
open AgentWorkflow.Lib AgentWorkflow.Lib.Calendar

def trim (t : Text) : Text := JsText.trim Char.toNat t

inductive Legacy where
  | apiToken
  | authJson
deriving DecidableEq

/-- The `token` property of `auth.json`. -/
inductive TokenField where
  | absent
  | other
  | string (t : Text)
deriving DecidableEq

def TokenField.token : TokenField → Text
  | .string t => trim t
  | _ => []

/-- What `auth.json` parses to; `customerId` and `email` are empty unless strings. -/
inductive AuthJson where
  | invalid
  | record (migrated : Bool) (token : TokenField) (customerId email : Text)
deriving DecidableEq

/-- A file with the identity `sameIdentity` compares. -/
structure File (α : Type) where
  ino : ℕ
  contents : α
deriving DecidableEq

inductive Phase where
  | writing
  | cleaning
  | done
deriving DecidableEq

/-- A migration pass after its read: the record, and the token found in it. -/
structure Pass where
  file : Legacy
  ino : ℕ
  token : Text
  customerId : Text
  email : Text
  phase : Phase
deriving DecidableEq

/-- A call of `bridge:save-token`. -/
structure Save where
  token : Text
  phase : Phase
deriving DecidableEq

structure State where
  authToken : Option Text
  apiToken : Option (File Text)
  authJson : Option (File AuthJson)
  nextIno : ℕ
  passes : List Pass
  saves : List Save
  held : List Text
deriving DecidableEq

/-- The first start: any credential, any legacy files. -/
def State.init (authToken : Option Text) (apiToken : Option Text) (authJson : Option AuthJson) : State :=
  { authToken, apiToken := apiToken.map (File.mk 0), authJson := authJson.map (File.mk 1), nextIno := 2,
    passes := [], saves := [], held := authToken.toList }

/-- The outcome of a credential operation; an unconfirmed one has replaced the
store and reports a failure all the same. -/
inductive CredentialResult where
  | ok
  | failed
  | unconfirmed
deriving DecidableEq

inductive Writer where
  | user
  | pass (k : ℕ)
  | save (j : ℕ)
deriving DecidableEq

inductive Op where
  | restart
  | migrate (file : Legacy) (encrypted readable : Bool)
  | passWrite (k : ℕ) (r : CredentialResult)
  | passClean (k : ℕ) (ok : Bool)
  | userSet (token : Text) (r : CredentialResult)
  | userDelete (r : CredentialResult)
  | saveToken (token : Text)
  | saveWrite (j : ℕ) (r : CredentialResult)
  | saveClean (j : ℕ) (ok : Bool)
deriving DecidableEq

inductive Event where
  | quiet
  /-- A pass found `token` in its file, or none when empty. -/
  | started (k : ℕ) (file : Legacy) (token : Text)
  | stored (w : Writer) (token : Text) (ok : Bool)
  | deleted (ok : Bool)
deriving DecidableEq

/-! ### The secure store -/

def secureSetCredential (w : Writer) (token : Text) (r : CredentialResult) (s : State) : State × Event :=
  match r with
  | .failed => (s, .quiet)
  | .ok => ({ s with authToken := some token, held := token :: s.held }, .stored w token true)
  | .unconfirmed => ({ s with authToken := some token, held := token :: s.held }, .stored w token false)

def secureDeleteCredential (r : CredentialResult) (s : State) : State × Event :=
  match r with
  | .failed => (s, .quiet)
  | .ok => ({ s with authToken := none }, .deleted true)
  | .unconfirmed => ({ s with authToken := none }, .deleted false)

/-! ### The legacy files -/

/-- The token a pass finds in the file, empty when there is none. -/
def legacyToken (s : State) : Legacy → Text
  | .apiToken => (s.apiToken.map fun f => trim f.contents).getD []
  | .authJson => match s.authJson with
    | some ⟨_, .record _ token _ _⟩ => token.token
    | _ => []

def removeLegacyAuthFile (ino : ℕ) (ok : Bool) (s : State) : State :=
  if ok ∧ s.apiToken.map File.ino = some ino then { s with apiToken := none } else s

def replaceLegacyAuthFile (ino : ℕ) (customerId email : Text) (ok : Bool) (s : State) : State :=
  if ok ∧ s.authJson.map File.ino = some ino then
    { s with authJson := some ⟨s.nextIno, .record true .absent customerId email⟩, nextIno := s.nextIno + 1 }
  else s

/-! ### The passes -/

def Phase.afterRead (token : Text) : Phase := if token = [] then .cleaning else .writing

def addPass (p : Pass) (s : State) : State × Event :=
  ({ s with passes := s.passes ++ [p] }, .started s.passes.length p.file p.token)

def migratePlaintextApiToken (s : State) : State × Event :=
  match s.apiToken with
  | none => (s, .quiet)
  | some f => addPass ⟨.apiToken, f.ino, trim f.contents, [], [], .afterRead (trim f.contents)⟩ s

def migrateLegacyAuthToken (s : State) : State × Event :=
  match s.authJson with
  | none => (s, .quiet)
  | some ⟨_, .invalid⟩ => (s, .quiet)
  | some ⟨ino, .record migrated token customerId email⟩ =>
    if migrated ∧ token = .absent then (s, .quiet)
    else addPass ⟨.authJson, ino, token.token, customerId, email, .afterRead token.token⟩ s

def migrate (hosted encrypted readable : Bool) (file : Legacy) (s : State) : State × Event :=
  if hosted ∧ encrypted ∧ readable then
    match file with
    | .apiToken => migratePlaintextApiToken s
    | .authJson => migrateLegacyAuthToken s
  else (s, .quiet)

def Pass.enter (phase : Phase) (p : Pass) : Pass := { p with phase }

def CredentialResult.next : CredentialResult → Phase
  | .ok => .cleaning
  | _ => .done

def passWrite (k : ℕ) (r : CredentialResult) (s : State) : State × Event :=
  match s.passes[k]? with
  | some p =>
    if p.phase = .writing then
      secureSetCredential (.pass k) p.token r { s with passes := s.passes.set k (p.enter r.next) }
    else (s, .quiet)
  | none => (s, .quiet)

def passClean (k : ℕ) (ok : Bool) (s : State) : State :=
  match s.passes[k]? with
  | some p =>
    if p.phase = .cleaning then
      let s := { s with passes := s.passes.set k (p.enter .done) }
      match p.file with
      | .apiToken => removeLegacyAuthFile p.ino ok s
      | .authJson => replaceLegacyAuthFile p.ino p.customerId p.email ok s
    else s
  | none => s

/-! ### `bridge:save-token` -/

def Save.enter (phase : Phase) (v : Save) : Save := { v with phase }

def saveWrite (j : ℕ) (r : CredentialResult) (s : State) : State × Event :=
  match s.saves[j]? with
  | some v =>
    if v.phase = .writing then
      secureSetCredential (.save j) v.token r { s with saves := s.saves.set j (v.enter r.next) }
    else (s, .quiet)
  | none => (s, .quiet)

/-- The removal of `api_token` right after its read. -/
def saveClean (j : ℕ) (ok : Bool) (s : State) : State :=
  match s.saves[j]? with
  | some v =>
    if v.phase = .cleaning then
      { s with saves := s.saves.set j (v.enter .done), apiToken := if ok then none else s.apiToken }
    else s
  | none => s

/-! ### The system -/

def restart (s : State) : State :=
  { s with passes := s.passes.map (Pass.enter .done), saves := s.saves.map (Save.enter .done) }

section Hosted
variable (hosted : Bool)

def step (s : State) : Op → State × Event
  | .restart => (restart s, .quiet)
  | .migrate file encrypted readable => migrate hosted encrypted readable file s
  | .passWrite k r => passWrite k r s
  | .passClean k ok => (passClean k ok s, .quiet)
  | .userSet token r => secureSetCredential .user token r s
  | .userDelete r => secureDeleteCredential r s
  | .saveToken token =>
    if hosted then ({ s with saves := s.saves ++ [⟨token, .writing⟩] }, .quiet) else (s, .quiet)
  | .saveWrite j r => saveWrite j r s
  | .saveClean j ok => (saveClean j ok s, .quiet)

def machine : Machine State Op Event := ⟨step hosted⟩

end Hosted

/-! ### What holds of every pass -/

def fileIno (s : State) : Legacy → Option ℕ
  | .apiToken => s.apiToken.map File.ino
  | .authJson => s.authJson.map File.ino

/-- The pass has read the token it carries from its file, which has it as long as it
is the same file, and the store has had it by the time the file is cleaned up. -/
structure PassOk (h : List Event) (s : State) (k : ℕ) (p : Pass) : Prop where
  started : .started k p.file p.token ∈ h
  known : p.ino < s.nextIno
  current : fileIno s p.file = some p.ino → legacyToken s p.file = p.token
  writing : p.phase = .writing → p.token ≠ []
  cleaning : p.phase = .cleaning → p.token ≠ [] → p.token ∈ s.held

structure Sound (h : List Event) (s : State) : Prop where
  passes : ∀ k p, s.passes[k]? = some p → PassOk h s k p
  files : ∀ file i, fileIno s file = some i → i < s.nextIno
  saves : ∀ j v, s.saves[j]? = some v → v.phase = .cleaning → .stored (.save j) v.token true ∈ h

variable {h : List Event} {s s' : State} {e : Event}

theorem PassOk.enter {k : ℕ} {p : Pass} (hp : PassOk h s k p) {phase : Phase} (hw : phase ≠ .writing)
    (hc : phase = .cleaning → p.token ∈ s.held) : PassOk h s k (p.enter phase) where
  started := hp.started
  known := hp.known
  current := hp.current
  writing heq := absurd heq hw
  cleaning heq _ := hc heq

/-- Legacy files as before, more values held and more events. -/
structure Kept (h : List Event) (s : State) (h' : List Event) (s' : State) : Prop where
  events : ∀ e ∈ h, e ∈ h'
  held : ∀ t ∈ s.held, t ∈ s'.held
  ino : s.nextIno ≤ s'.nextIno
  current : ∀ file i, i < s.nextIno → fileIno s' file = some i →
    fileIno s file = some i ∧ legacyToken s' file = legacyToken s file

theorem PassOk.kept {h' : List Event} {k : ℕ} {p : Pass} (hp : PassOk h s k p) (hk : Kept h s h' s') :
    PassOk h' s' k p where
  started := hk.events _ hp.started
  known := lt_of_lt_of_le hp.known hk.ino
  current hi := by
    obtain ⟨hold, htoken⟩ := hk.current p.file p.ino hp.known hi
    rw [htoken]
    exact hp.current hold
  writing := hp.writing
  cleaning hph ht := hk.held _ (hp.cleaning hph ht)

theorem kept_of_files (e : Event) (hapi : s'.apiToken = s.apiToken) (hjson : s'.authJson = s.authJson)
    (hino : s'.nextIno = s.nextIno) (hheld : ∀ t ∈ s.held, t ∈ s'.held) : Kept h s (h ++ [e]) s' where
  events x hx := List.mem_append_left _ hx
  held := hheld
  ino := hino.ge
  current file i _ hi := by
    cases file with
    | apiToken =>
      rw [fileIno, hapi] at hi
      exact ⟨hi, by rw [legacyToken, legacyToken, hapi]⟩
    | authJson =>
      rw [fileIno, hjson] at hi
      exact ⟨hi, by rw [legacyToken, legacyToken, hjson]⟩

theorem Sound.of_kept (hs : Sound h s) (hk : Kept h s (h ++ [e]) s') (hpasses : s'.passes = s.passes)
    (hfiles : ∀ file i, fileIno s' file = some i → i < s'.nextIno)
    (hsaves : ∀ j v, s'.saves[j]? = some v → v.phase = .cleaning → .stored (.save j) v.token true ∈ h ++ [e]) :
    Sound (h ++ [e]) s' where
  passes k p hp := by
    rw [hpasses] at hp
    exact (hs.passes k p hp).kept hk
  files := hfiles
  saves := hsaves

/-- Pass `k` moves on, and the rest of the state as `Kept` allows. -/
theorem Sound.pass_enter (hs : Sound h s) (hk : Kept h s (h ++ [e]) s') {k : ℕ} {p : Pass} {phase : Phase}
    (hp : s.passes[k]? = some p) (hpasses : s'.passes = s.passes.set k (p.enter phase)) (hw : phase ≠ .writing)
    (hc : phase = .cleaning → p.token ∈ s'.held) (hfiles : ∀ file i, fileIno s' file = some i → i < s'.nextIno)
    (hsaves : s'.saves = s.saves) : Sound (h ++ [e]) s' where
  passes j q hq := by
    rw [hpasses] at hq
    rcases getElem?_set_cases hq with ⟨rfl, rfl⟩ | ⟨-, hq⟩
    · exact ((hs.passes j p hp).kept hk).enter hw hc
    · exact (hs.passes j q hq).kept hk
  files := hfiles
  saves j v hv hph := by
    rw [hsaves] at hv
    exact hk.events _ (hs.saves j v hv hph)

theorem Sound.files_congr (hs : Sound h s) (hapi : s'.apiToken = s.apiToken) (hjson : s'.authJson = s.authJson)
    (hino : s'.nextIno = s.nextIno) (file : Legacy) (i : ℕ) (hi : fileIno s' file = some i) : i < s'.nextIno := by
  rw [hino]
  apply hs.files file
  cases file with
  | apiToken => rwa [fileIno, hapi] at hi
  | authJson => rwa [fileIno, hjson] at hi

theorem Sound.saves_snoc (hs : Sound h s) (hsaves : s'.saves = s.saves) (j : ℕ) (v : Save)
    (hv : s'.saves[j]? = some v) (hph : v.phase = .cleaning) : .stored (.save j) v.token true ∈ h ++ [e] := by
  rw [hsaves] at hv
  exact List.mem_append_left _ (hs.saves j v hv hph)

/-- A step that only writes the secure store, or nothing. -/
theorem Sound.of_files (hs : Sound h s) (e : Event) (hpasses : s'.passes = s.passes) (hsaves : s'.saves = s.saves)
    (hapi : s'.apiToken = s.apiToken) (hjson : s'.authJson = s.authJson) (hino : s'.nextIno = s.nextIno)
    (hheld : ∀ t ∈ s.held, t ∈ s'.held) : Sound (h ++ [e]) s' :=
  hs.of_kept (kept_of_files e hapi hjson hino hheld) hpasses (hs.files_congr hapi hjson hino) (hs.saves_snoc hsaves)

theorem Sound.quiet (hs : Sound h s) (e : Event) : Sound (h ++ [e]) s :=
  hs.of_files e rfl rfl rfl rfl rfl fun _ ht => ht

theorem Sound.secureSet (hs : Sound h s) (w : Writer) (token : Text) (r : CredentialResult) :
    Sound (h ++ [(secureSetCredential w token r s).2]) (secureSetCredential w token r s).1 := by
  cases r with
  | failed => exact hs.quiet _
  | ok => exact hs.of_files _ rfl rfl rfl rfl rfl fun t ht => List.mem_cons_of_mem _ ht
  | unconfirmed => exact hs.of_files _ rfl rfl rfl rfl rfl fun t ht => List.mem_cons_of_mem _ ht

theorem Sound.secureDelete (hs : Sound h s) (r : CredentialResult) :
    Sound (h ++ [(secureDeleteCredential r s).2]) (secureDeleteCredential r s).1 := by
  cases r with
  | failed => exact hs.quiet _
  | ok => exact hs.of_files _ rfl rfl rfl rfl rfl fun _ ht => ht
  | unconfirmed => exact hs.of_files _ rfl rfl rfl rfl rfl fun _ ht => ht

/-! ### The steps -/

theorem Sound.restart (hs : Sound h s) (e : Event) : Sound (h ++ [e]) (restart s) where
  passes k p hp := by
    simp only [TokenMigration.restart, List.getElem?_map, Option.map_eq_some_iff] at hp
    obtain ⟨q, hq, rfl⟩ := hp
    have hkept : Kept h s (h ++ [e]) (TokenMigration.restart s) := kept_of_files e rfl rfl rfl fun _ ht => ht
    exact ((hs.passes k q hq).kept hkept).enter (by simp) (by simp)
  files := hs.files_congr rfl rfl rfl
  saves j v hv hph := by
    simp only [TokenMigration.restart, List.getElem?_map, Option.map_eq_some_iff] at hv
    obtain ⟨q, -, rfl⟩ := hv
    simp [Save.enter] at hph

/-- A pass that starts carries the token of its file. -/
theorem Sound.addPass (hs : Sound h s) {p : Pass} (hino : fileIno s p.file = some p.ino)
    (htoken : legacyToken s p.file = p.token) (hphase : p.phase = .afterRead p.token) :
    Sound (h ++ [(addPass p s).2]) (addPass p s).1 where
  passes k q hq := by
    have hkept : Kept h s (h ++ [(TokenMigration.addPass p s).2]) (TokenMigration.addPass p s).1 :=
      kept_of_files _ rfl rfl rfl fun _ ht => ht
    rcases getElem?_snoc hq with hq | ⟨rfl, rfl⟩
    · exact (hs.passes k q hq).kept hkept
    · refine ⟨by simp [TokenMigration.addPass], hs.files _ _ hino, fun _ => htoken, ?_, ?_⟩
      · intro hw ht
        rw [hphase, ht] at hw
        simp [Phase.afterRead] at hw
      · intro hc ht
        rw [hphase, Phase.afterRead, if_neg ht] at hc
        simp at hc
  files := hs.files_congr rfl rfl rfl
  saves := hs.saves_snoc rfl

theorem Sound.migrate (hs : Sound h s) (hosted encrypted readable : Bool) (file : Legacy) :
    Sound (h ++ [(migrate hosted encrypted readable file s).2]) (migrate hosted encrypted readable file s).1 := by
  unfold TokenMigration.migrate
  split_ifs
  · cases file with
    | apiToken =>
      simp only [migratePlaintextApiToken]
      cases hf : s.apiToken with
      | none => exact hs.quiet _
      | some f =>
        apply hs.addPass
        · simp [fileIno, hf]
        · simp [legacyToken, hf]
        · rfl
    | authJson =>
      simp only [migrateLegacyAuthToken]
      rcases hf : s.authJson with _ | ⟨ino, _ | ⟨migrated, token, customerId, email⟩⟩
      · exact hs.quiet _
      · exact hs.quiet _
      · dsimp only
        split_ifs
        · exact hs.quiet _
        · apply hs.addPass
          · simp [fileIno, hf]
          · simp [legacyToken, hf]
          · rfl
  · exact hs.quiet _

theorem Sound.passWrite (hs : Sound h s) (k : ℕ) (r : CredentialResult) :
    Sound (h ++ [(passWrite k r s).2]) (passWrite k r s).1 := by
  unfold TokenMigration.passWrite
  cases hp : s.passes[k]? with
  | none => exact hs.quiet _
  | some p =>
    dsimp only
    split_ifs with hw
    · cases r with
      | failed =>
        exact hs.pass_enter (kept_of_files _ rfl rfl rfl fun _ ht => ht) hp rfl (by simp [CredentialResult.next])
          (by simp [CredentialResult.next]) (hs.files_congr rfl rfl rfl) rfl
      | ok =>
        exact hs.pass_enter (kept_of_files _ rfl rfl rfl fun _ ht => List.mem_cons_of_mem _ ht) hp rfl
          (by simp [CredentialResult.next]) (fun _ => List.mem_cons_self ..) (hs.files_congr rfl rfl rfl) rfl
      | unconfirmed =>
        exact hs.pass_enter (kept_of_files _ rfl rfl rfl fun _ ht => List.mem_cons_of_mem _ ht) hp rfl
          (by simp [CredentialResult.next]) (by simp [CredentialResult.next]) (hs.files_congr rfl rfl rfl) rfl
    · exact hs.quiet _

theorem Sound.save_enter (hs : Sound h s) (hk : Kept h s (h ++ [e]) s') {j : ℕ} {v : Save} {phase : Phase}
    (hpasses : s'.passes = s.passes) (hsaves : s'.saves = s.saves.set j (v.enter phase))
    (hfiles : ∀ file i, fileIno s' file = some i → i < s'.nextIno)
    (hc : phase = .cleaning → .stored (.save j) v.token true ∈ h ++ [e]) : Sound (h ++ [e]) s' := by
  refine hs.of_kept hk hpasses hfiles ?_
  intro i w hw hph
  rw [hsaves] at hw
  rcases getElem?_set_cases hw with ⟨rfl, rfl⟩ | ⟨-, hw⟩
  · exact hc hph
  · exact List.mem_append_left _ (hs.saves i w hw hph)

theorem Sound.saveWrite (hs : Sound h s) (j : ℕ) (r : CredentialResult) :
    Sound (h ++ [(saveWrite j r s).2]) (saveWrite j r s).1 := by
  unfold TokenMigration.saveWrite
  cases hv : s.saves[j]? with
  | none => exact hs.quiet _
  | some v =>
    dsimp only
    split_ifs with hw
    · cases r with
      | failed =>
        exact hs.save_enter (kept_of_files _ rfl rfl rfl fun _ ht => ht) rfl rfl (hs.files_congr rfl rfl rfl)
          (by simp [CredentialResult.next])
      | ok =>
        exact hs.save_enter (kept_of_files _ rfl rfl rfl fun _ ht => List.mem_cons_of_mem _ ht) rfl rfl
          (hs.files_congr rfl rfl rfl) (by simp [secureSetCredential])
      | unconfirmed =>
        exact hs.save_enter (kept_of_files _ rfl rfl rfl fun _ ht => List.mem_cons_of_mem _ ht) rfl rfl
          (hs.files_congr rfl rfl rfl) (by simp [CredentialResult.next])
    · exact hs.quiet _

/-- Without `api_token` there is one file less to know about. -/
theorem kept_removed (e : Event) (hapi : s'.apiToken = none) (hjson : s'.authJson = s.authJson)
    (hino : s'.nextIno = s.nextIno) (hheld : s'.held = s.held) : Kept h s (h ++ [e]) s' where
  events x hx := List.mem_append_left _ hx
  held t ht := by rwa [hheld]
  ino := hino.ge
  current file i _ hi := by
    cases file with
    | apiToken => simp [fileIno, hapi] at hi
    | authJson =>
      rw [fileIno, hjson] at hi
      exact ⟨hi, by rw [legacyToken, legacyToken, hjson]⟩

theorem Sound.files_removed (hs : Sound h s) (hapi : s'.apiToken = none) (hjson : s'.authJson = s.authJson)
    (hino : s'.nextIno = s.nextIno) (file : Legacy) (i : ℕ) (hi : fileIno s' file = some i) : i < s'.nextIno := by
  cases file with
  | apiToken => simp [fileIno, hapi] at hi
  | authJson =>
    rw [fileIno, hjson] at hi
    rw [hino]
    exact hs.files .authJson i hi

/-- The file that replaces `auth.json` is none that a pass has read. -/
theorem kept_replaced (e : Event) {f : File AuthJson} (hapi : s'.apiToken = s.apiToken)
    (hjson : s'.authJson = some f) (hf : f.ino = s.nextIno) (hino : s'.nextIno = s.nextIno + 1)
    (hheld : s'.held = s.held) : Kept h s (h ++ [e]) s' where
  events x hx := List.mem_append_left _ hx
  held t ht := by rwa [hheld]
  ino := by omega
  current file i hlt hi := by
    cases file with
    | apiToken =>
      rw [fileIno, hapi] at hi
      exact ⟨hi, by rw [legacyToken, legacyToken, hapi]⟩
    | authJson =>
      rw [fileIno, hjson, Option.map_some, Option.some.injEq] at hi
      omega

theorem Sound.passClean (hs : Sound h s) (k : ℕ) (ok : Bool) (e : Event) : Sound (h ++ [e]) (passClean k ok s) := by
  unfold TokenMigration.passClean
  cases hp : s.passes[k]? with
  | none => exact hs.quiet _
  | some p =>
    dsimp only
    split_ifs with hw
    · cases p.file with
      | apiToken =>
        simp only [removeLegacyAuthFile]
        split_ifs
        · exact hs.pass_enter (kept_removed e rfl rfl rfl rfl) hp rfl (by simp) (by simp)
            (hs.files_removed rfl rfl rfl) rfl
        · exact hs.pass_enter (kept_of_files e rfl rfl rfl fun _ ht => ht) hp rfl (by simp) (by simp)
            (hs.files_congr rfl rfl rfl) rfl
      | authJson =>
        simp only [replaceLegacyAuthFile]
        split_ifs
        · refine hs.pass_enter (kept_replaced e rfl rfl rfl rfl rfl) hp rfl (by simp) (by simp) ?_ rfl
          intro file i hi
          cases file with
          | apiToken => exact Nat.lt_succ_of_lt (hs.files .apiToken i hi)
          | authJson =>
            simp only [fileIno, Option.map_some, Option.some.injEq] at hi
            exact hi ▸ Nat.lt_succ_self _
        · exact hs.pass_enter (kept_of_files e rfl rfl rfl fun _ ht => ht) hp rfl (by simp) (by simp)
            (hs.files_congr rfl rfl rfl) rfl
    · exact hs.quiet _

theorem Sound.saveClean (hs : Sound h s) (j : ℕ) (ok : Bool) (e : Event) : Sound (h ++ [e]) (saveClean j ok s) := by
  unfold TokenMigration.saveClean
  cases hv : s.saves[j]? with
  | none => exact hs.quiet _
  | some v =>
    dsimp only
    split
    · cases ok with
      | true =>
        exact hs.save_enter (kept_removed e rfl rfl rfl rfl) rfl rfl (hs.files_removed rfl rfl rfl) (by simp)
      | false =>
        exact hs.save_enter (kept_of_files e rfl rfl rfl fun _ ht => ht) rfl rfl (hs.files_congr rfl rfl rfl) (by simp)
    · exact hs.quiet _

theorem Sound.saveToken (hs : Sound h s) (token : Text) (e : Event) :
    Sound (h ++ [e]) { s with saves := s.saves ++ [⟨token, .writing⟩] } := by
  refine hs.of_kept (kept_of_files e rfl rfl rfl fun _ ht => ht) rfl (hs.files_congr rfl rfl rfl) ?_
  intro j v hv hph
  rcases getElem?_snoc hv with hv | ⟨-, rfl⟩
  · exact List.mem_append_left _ (hs.saves j v hv hph)
  · simp at hph

theorem Sound.step (hs : Sound h s) (hosted : Bool) (op : Op) :
    Sound (h ++ [(step hosted s op).2]) (step hosted s op).1 := by
  cases op with
  | restart => exact hs.restart _
  | migrate file encrypted readable => exact hs.migrate hosted encrypted readable file
  | passWrite k r => exact hs.passWrite k r
  | passClean k ok => exact hs.passClean k ok _
  | userSet token r => exact hs.secureSet .user token r
  | userDelete r => exact hs.secureDelete r
  | saveToken token =>
    simp only [TokenMigration.step]
    split_ifs
    · exact hs.saveToken token _
    · exact hs.quiet _
  | saveWrite j r => exact hs.saveWrite j r
  | saveClean j ok => exact hs.saveClean j ok _

theorem sound_init (authToken : Option Text) (apiToken : Option Text) (authJson : Option AuthJson) :
    Sound [] (State.init authToken apiToken authJson) where
  passes k p hp := by simp [State.init] at hp
  files file i hi := by
    cases file with
    | apiToken =>
      simp only [fileIno, State.init, Option.map_map, Option.map_eq_some_iff, Function.comp] at hi
      obtain ⟨-, -, rfl⟩ := hi
      exact Nat.zero_lt_succ _
    | authJson =>
      simp only [fileIno, State.init, Option.map_map, Option.map_eq_some_iff, Function.comp] at hi
      obtain ⟨-, -, rfl⟩ := hi
      exact Nat.lt_succ_self _
  saves j v hv := by simp [State.init] at hv

/-! ### What a step may change -/

/-- The steps of the migration passes. -/
def Op.OfMigration : Op → Prop
  | .migrate .. | .passWrite .. | .passClean .. => True
  | _ => False

/-- A pass starts with the token its file holds, and changes `auth_token` only by
storing that; a file that loses its token never gets another one, and loses it after
the store held it or to the clean-up of a save that the store has accepted. -/
structure Respects (hosted : Bool) (h : List Event) (s : State) (op : Op) : Prop where
  read : ∀ k file token, (step hosted s op).2 = .started k file token → legacyToken s file = token
  changed : op.OfMigration → (step hosted s op).1.authToken ≠ s.authToken → ∃ k r file token,
    op = .passWrite k r ∧ .started k file token ∈ h ∧ token ≠ [] ∧ (step hosted s op).1.authToken = some token
  lost : ∀ file, legacyToken (step hosted s op).1 file ≠ legacyToken s file →
    legacyToken (step hosted s op).1 file = [] ∧ (legacyToken s file ∈ s.held ∨
      file = .apiToken ∧ ∃ j token ok, op = .saveClean j ok ∧ .stored (.save j) token true ∈ h)

theorem started_migrate {hosted encrypted readable : Bool} {file f : Legacy} {k : ℕ} {token : Text}
    (he : (migrate hosted encrypted readable file s).2 = .started k f token) : legacyToken s f = token := by
  unfold migrate at he
  split_ifs at he
  · cases file with
    | apiToken =>
      simp only [migratePlaintextApiToken] at he
      cases hf : s.apiToken with
      | none => simp [hf] at he
      | some x =>
        simp only [hf, addPass, Event.started.injEq] at he
        obtain ⟨-, rfl, rfl⟩ := he
        simp [legacyToken, hf]
    | authJson =>
      simp only [migrateLegacyAuthToken] at he
      rcases hf : s.authJson with _ | ⟨ino, _ | ⟨migrated, field, customerId, email⟩⟩
      · simp [hf] at he
      · simp [hf] at he
      · simp only [hf] at he
        split_ifs at he
        simp only [addPass, Event.started.injEq] at he
        obtain ⟨-, rfl, rfl⟩ := he
        simp [legacyToken, hf]

theorem secureSet_not_started (w : Writer) (t : Text) (r : CredentialResult) (k : ℕ) (file : Legacy)
    (token : Text) : (secureSetCredential w t r s).2 ≠ .started k file token := by
  cases r <;> simp [secureSetCredential]

theorem started_step {hosted : Bool} {op : Op} {k : ℕ} {file : Legacy} {token : Text}
    (he : (step hosted s op).2 = .started k file token) : legacyToken s file = token := by
  cases op with
  | migrate f encrypted readable => exact started_migrate he
  | restart => simp [step] at he
  | passWrite i r =>
    simp only [step, passWrite] at he
    cases hp : s.passes[i]? with
    | none => simp [hp] at he
    | some p =>
      simp only [hp] at he
      split_ifs at he
      exact (secureSet_not_started _ _ _ _ _ _ he).elim
  | passClean i ok => simp [step] at he
  | userSet t r => exact (secureSet_not_started _ _ _ _ _ _ he).elim
  | userDelete r => cases r <;> simp [step, secureDeleteCredential] at he
  | saveToken t =>
    simp only [step] at he
    split_ifs at he
  | saveWrite j r =>
    simp only [step, saveWrite] at he
    cases hv : s.saves[j]? with
    | none => simp [hv] at he
    | some v =>
      simp only [hv] at he
      split_ifs at he
      exact (secureSet_not_started _ _ _ _ _ _ he).elim
  | saveClean j ok => simp [step] at he

theorem authToken_migrate (hosted encrypted readable : Bool) (file : Legacy) :
    (migrate hosted encrypted readable file s).1.authToken = s.authToken := by
  unfold migrate
  split_ifs
  · cases file with
    | apiToken =>
      simp only [migratePlaintextApiToken]
      cases s.apiToken with
      | none => rfl
      | some f => rfl
    | authJson =>
      simp only [migrateLegacyAuthToken]
      rcases s.authJson with _ | ⟨ino, _ | ⟨migrated, field, customerId, email⟩⟩
      · rfl
      · rfl
      · dsimp only
        split_ifs <;> rfl
  · rfl

theorem authToken_passClean (k : ℕ) (ok : Bool) : (passClean k ok s).authToken = s.authToken := by
  unfold passClean
  cases s.passes[k]? with
  | none => rfl
  | some p =>
    dsimp only
    split
    · cases p.file with
      | apiToken => simp only [removeLegacyAuthFile]; split_ifs <;> rfl
      | authJson => simp only [replaceLegacyAuthFile]; split_ifs <;> rfl
    · rfl

/-- A pass stores the token it carries, and it carries one. -/
theorem Sound.changed (hs : Sound h s) (hosted : Bool) {op : Op} (hop : op.OfMigration)
    (hne : (TokenMigration.step hosted s op).1.authToken ≠ s.authToken) : ∃ k r file token,
      op = .passWrite k r ∧ .started k file token ∈ h ∧ token ≠ [] ∧
        (TokenMigration.step hosted s op).1.authToken = some token := by
  cases op with
  | migrate file encrypted readable => exact absurd (authToken_migrate ..) hne
  | passClean k ok => exact absurd (authToken_passClean k ok) hne
  | passWrite k r =>
    simp only [TokenMigration.step, TokenMigration.passWrite] at hne ⊢
    cases hp : s.passes[k]? with
    | none => simp [hp] at hne
    | some p =>
      simp only [hp] at hne ⊢
      by_cases hw : p.phase = .writing
      · rw [if_pos hw] at hne ⊢
        have hpass := hs.passes k p hp
        refine ⟨k, r, p.file, p.token, rfl, hpass.started, hpass.writing hw, ?_⟩
        cases r with
        | failed => simp [secureSetCredential] at hne
        | ok => rfl
        | unconfirmed => rfl
      · simp [hw] at hne
  | restart => exact absurd hop (by simp [Op.OfMigration])
  | userSet token r => exact absurd hop (by simp [Op.OfMigration])
  | userDelete r => exact absurd hop (by simp [Op.OfMigration])
  | saveToken token => exact absurd hop (by simp [Op.OfMigration])
  | saveWrite j r => exact absurd hop (by simp [Op.OfMigration])
  | saveClean j ok => exact absurd hop (by simp [Op.OfMigration])

/-- The files are those of `s`. -/
def SameFiles (s s' : State) : Prop := s'.apiToken = s.apiToken ∧ s'.authJson = s.authJson

theorem SameFiles.legacyToken (hf : SameFiles s s') (file : Legacy) :
    legacyToken s' file = legacyToken s file := by
  obtain ⟨hapi, hjson⟩ := hf
  cases file with
  | apiToken => rw [TokenMigration.legacyToken, TokenMigration.legacyToken, hapi]
  | authJson => rw [TokenMigration.legacyToken, TokenMigration.legacyToken, hjson]

theorem sameFiles_secureSet (w : Writer) (t : Text) (r : CredentialResult) :
    SameFiles s (secureSetCredential w t r s).1 := by
  cases r <;> exact ⟨rfl, rfl⟩

theorem sameFiles_migrate (hosted encrypted readable : Bool) (file : Legacy) :
    SameFiles s (migrate hosted encrypted readable file s).1 := by
  unfold migrate
  split_ifs
  · cases file with
    | apiToken =>
      simp only [migratePlaintextApiToken]
      cases s.apiToken with
      | none => exact ⟨rfl, rfl⟩
      | some f => exact ⟨rfl, rfl⟩
    | authJson =>
      simp only [migrateLegacyAuthToken]
      rcases hf : s.authJson with _ | ⟨ino, _ | ⟨migrated, field, customerId, email⟩⟩
      · exact ⟨rfl, rfl⟩
      · exact ⟨rfl, rfl⟩
      · dsimp only
        split_ifs
        · exact ⟨rfl, rfl⟩
        · exact ⟨rfl, rfl⟩
  · exact ⟨rfl, rfl⟩

theorem sameFiles_passWrite (k : ℕ) (r : CredentialResult) : SameFiles s (passWrite k r s).1 := by
  unfold passWrite
  cases s.passes[k]? with
  | none => exact ⟨rfl, rfl⟩
  | some p =>
    dsimp only
    split_ifs
    · cases r <;> exact ⟨rfl, rfl⟩
    · exact ⟨rfl, rfl⟩

theorem sameFiles_saveWrite (j : ℕ) (r : CredentialResult) : SameFiles s (saveWrite j r s).1 := by
  unfold saveWrite
  cases s.saves[j]? with
  | none => exact ⟨rfl, rfl⟩
  | some v =>
    dsimp only
    split_ifs
    · cases r <;> exact ⟨rfl, rfl⟩
    · exact ⟨rfl, rfl⟩

/-- A file that a pass cleans up has lost the token the pass has stored. -/
theorem Sound.lost_passClean (hs : Sound h s) (k : ℕ) (ok : Bool) (file : Legacy)
    (hne : legacyToken (TokenMigration.passClean k ok s) file ≠ legacyToken s file) :
    legacyToken (TokenMigration.passClean k ok s) file = [] ∧ legacyToken s file ∈ s.held := by
  unfold TokenMigration.passClean at hne ⊢
  cases hp : s.passes[k]? with
  | none => simp [hp] at hne
  | some p =>
    have hpass := hs.passes k p hp
    simp only [hp] at hne ⊢
    by_cases hph : p.phase = .cleaning
    · rw [if_pos hph] at hne ⊢
      -- what was in the file the pass has read, if it is still that file
      have hheld : fileIno s p.file = some p.ino → legacyToken s p.file ≠ [] → legacyToken s p.file ∈ s.held := by
        intro hi ht
        rw [hpass.current hi] at ht ⊢
        exact hpass.cleaning hph ht
      cases hfile : p.file with
      | apiToken =>
        rw [hfile] at hheld
        simp only [hfile, removeLegacyAuthFile] at hne ⊢
        split_ifs at hne ⊢ with hi
        · cases file with
          | apiToken =>
            refine ⟨rfl, hheld hi.2 ?_⟩
            intro ht
            rw [ht] at hne
            exact hne rfl
          | authJson => exact absurd rfl hne
        · cases file <;> exact absurd rfl hne
      | authJson =>
        rw [hfile] at hheld
        simp only [hfile, replaceLegacyAuthFile] at hne ⊢
        split_ifs at hne ⊢ with hi
        · cases file with
          | apiToken => exact absurd rfl hne
          | authJson =>
            refine ⟨rfl, hheld hi.2 ?_⟩
            intro ht
            rw [ht] at hne
            exact hne rfl
        · cases file <;> exact absurd rfl hne
    · rw [if_neg hph] at hne
      exact absurd rfl hne

theorem Sound.lost_saveClean (hs : Sound h s) (j : ℕ) (ok : Bool) (file : Legacy)
    (hne : legacyToken (TokenMigration.saveClean j ok s) file ≠ legacyToken s file) :
    legacyToken (TokenMigration.saveClean j ok s) file = [] ∧ file = .apiToken ∧
      ∃ token, .stored (.save j) token true ∈ h := by
  unfold TokenMigration.saveClean at hne ⊢
  cases hv : s.saves[j]? with
  | none => simp [hv] at hne
  | some v =>
    simp only [hv] at hne ⊢
    by_cases hph : v.phase = .cleaning
    · rw [if_pos hph] at hne ⊢
      cases file with
      | authJson => exact absurd rfl hne
      | apiToken =>
        cases ok with
        | false => exact absurd rfl hne
        | true => exact ⟨rfl, rfl, v.token, hs.saves j v hv hph⟩
    · rw [if_neg hph] at hne
      exact absurd rfl hne

theorem Sound.lost (hs : Sound h s) (hosted : Bool) (op : Op) (file : Legacy)
    (hne : legacyToken (TokenMigration.step hosted s op).1 file ≠ legacyToken s file) :
    legacyToken (TokenMigration.step hosted s op).1 file = [] ∧ (legacyToken s file ∈ s.held ∨
      file = .apiToken ∧ ∃ j token ok, op = .saveClean j ok ∧ .stored (.save j) token true ∈ h) := by
  cases op with
  | passClean k ok =>
    obtain ⟨hnil, hheld⟩ := hs.lost_passClean k ok file hne
    exact ⟨hnil, Or.inl hheld⟩
  | saveClean j ok =>
    obtain ⟨hnil, hfile, token, hstored⟩ := hs.lost_saveClean j ok file hne
    exact ⟨hnil, Or.inr ⟨hfile, j, token, ok, rfl, hstored⟩⟩
  | restart => exact absurd (SameFiles.legacyToken ⟨rfl, rfl⟩ file) hne
  | migrate f encrypted readable => exact absurd ((sameFiles_migrate ..).legacyToken file) hne
  | passWrite k r => exact absurd ((sameFiles_passWrite k r).legacyToken file) hne
  | userSet token r => exact absurd ((sameFiles_secureSet ..).legacyToken file) hne
  | userDelete r => cases r <;> exact absurd (SameFiles.legacyToken ⟨rfl, rfl⟩ file) hne
  | saveToken token => cases hosted <;> exact absurd (SameFiles.legacyToken ⟨rfl, rfl⟩ file) hne
  | saveWrite j r => exact absurd ((sameFiles_saveWrite j r).legacyToken file) hne

theorem Sound.respects (hs : Sound h s) (hosted : Bool) (op : Op) : Respects hosted h s op where
  read _ _ _ := started_step
  changed := hs.changed hosted
  lost := hs.lost hosted op

end AgentWorkflow.Desktop.TokenMigration
