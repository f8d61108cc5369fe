import AgentWorkflow.Lib.JsStringify
import AgentWorkflow.Lib.Machine
import AgentWorkflow.Lib.OrderedDict

/-!
# Settings across a change of the user (`src/stores/settings.ts`, `src/stores/auth.ts`)

The refs of the settings store, the records that are kept for each user, and the loads and
saves whose awaited steps run between those of others. The handlers of the main process
that keep the files are those of `electron/ipc/handlers.ts`.
-/

namespace AgentWorkflow.Desktop.SettingsSwitch
open AgentWorkflow.Lib AgentWorkflow.Lib.Js

inductive Theme
  | dark
  | light
deriving DecidableEq

inductive Language
  | zhCN
  | en
deriving DecidableEq

def Theme.text : Theme → Str
  | .dark => str "dark"
  | .light => str "light"

def Language.text : Language → Str
  | .zhCN => str "zh-CN"
  | .en => str "en"

/-- The refs other than the SSH password. -/
structure Refs where
  serverUrl : Str
  theme : Theme
  language : Language
  vmHost : Str
  sshPort : Number
  sshUser : Str
deriving DecidableEq

/-- A stored record: what `typeof` finds in each member, `none` where it has another type. -/
structure RemoteData where
  vmHost : Option Str
  sshPort : Option Number
  sshUser : Option Str
deriving DecidableEq

structure SettingsData where
  serverUrl : Option Str
  theme : Option Str
  language : Option Str
  remote : Option RemoteData
deriving DecidableEq

/-- A file or an item of `localStorage`; `scalar` is JSON that is neither an object nor `null`. -/
inductive Entry
  | absent
  | malformed
  | null
  | scalar
  | object (data : SettingsData)
deriving DecidableEq

/-! ### Loading and saving -/

section
variable (normalizeServiceBaseUrl : Str → Option Str)

def applyData (data : SettingsData) (refs : Refs) : Refs :=
  let serverUrl := match data.serverUrl with
    | some url => if url = [] then refs.serverUrl else (normalizeServiceBaseUrl url).getD refs.serverUrl
    | none => refs.serverUrl
  let theme := if data.theme = some (str "dark") then .dark else if data.theme = some (str "light") then .light else refs.theme
  let language := if data.language = some (str "zh-CN") then .zhCN else if data.language = some (str "en") then .en else refs.language
  let refs := { refs with serverUrl := serverUrl, theme := theme, language := language }
  match data.remote with
  | none => refs
  | some remote =>
    { refs with
      vmHost := remote.vmHost.getD refs.vmHost
      sshPort := match remote.sshPort with
        | some port => if port.isFinite then port else refs.sshPort
        | none => refs.sshPort
      sshUser := remote.sshUser.getD refs.sshUser }

/-- A number after `JSON.stringify` and `JSON.parse`. -/
def jsonNumber (n : Number) : Option Number := if n.isFinite then some (if n.word = 0 then ⟨false, 0⟩ else n) else none

def settingsData (refs : Refs) : SettingsData :=
  ⟨some refs.serverUrl, some refs.theme.text, some refs.language.text, some ⟨some refs.vmHost, jsonNumber refs.sshPort, some refs.sshUser⟩⟩

/-- A record as `saveSettings` writes it. -/
structure Canonical (refs : Refs) : Prop where
  serverUrl : normalizeServiceBaseUrl refs.serverUrl = some refs.serverUrl ∧ refs.serverUrl ≠ []
  sshPort : refs.sshPort.isFinite = true ∧ (refs.sshPort.word = 0 → refs.sshPort.negative = false)

theorem applyData_settingsData {values : Refs} (h : Canonical normalizeServiceBaseUrl values) (refs : Refs) :
    applyData normalizeServiceBaseUrl (settingsData values) refs = values := by
  obtain ⟨serverUrl, theme, language, vmHost, sshPort, sshUser⟩ := values
  obtain ⟨⟨hnormalize, hurl⟩, hfinite, hzero⟩ := h
  have hnumber : jsonNumber sshPort = some sshPort := by
    unfold jsonNumber
    rw [if_pos hfinite]
    split
    · next hword =>
      cases sshPort with
      | mk negative word =>
        dsimp only at hword
        have hpositive := hzero hword
        dsimp only at hpositive
        rw [hword, hpositive]
    · rfl
  simp only [applyData, settingsData, hnumber]
  rw [if_neg hurl, if_pos hfinite]
  dsimp only at hnormalize
  rw [hnormalize]
  cases theme <;> cases language <;> rfl

end

/-! ### The store -/

/-- What a load waits for; `late` for the one that `pywebviewready` starts. -/
inductive LoadPhase
  | begun (late : Bool)
  /-- the main process has not read the files -/
  | requested (late : Bool) (customerId : Option Str)
  | answered (late : Bool) (saved : Option Entry)
  | credential
  | credentialRead (password : Option Str)
deriving DecidableEq

inductive SavePhase
  | begun (data : SettingsData)
  /-- the main process has not written the file -/
  | requested (data : SettingsData) (customerId : Option Str)
  | written (data : SettingsData)
  /-- the main process has not stored the password, or deleted it -/
  | credential (password : Option Str)
deriving DecidableEq

structure Store where
  refs : Refs
  sshPassword : Str
  loaded : Bool
  /-- `awp_customer_id` -/
  customerId : Option Str
  /-- the items `awp_settings` and `awp_settings_<id>` -/
  items : Option Str → Entry
  /-- `settings.json` and `settings_<id>.json` -/
  files : Option Str → Entry
  /-- the credential `sshPassword` -/
  credential : Option Str
  loads : List (ℕ × LoadPhase)
  saves : List (ℕ × SavePhase)
  /-- `pywebviewready` listeners -/
  listeners : ℕ
  /-- the values of the last flush of the watcher -/
  seen : Refs × Str
  made : ℕ

def defaults : Refs := ⟨str "http://127.0.0.1:8787", .light, .zhCN, str "127.0.0.1", ⟨false, 0x40A15C0000000000⟩, []⟩

def initial (items files : Option Str → Entry) (credential : Option Str) (customerId : Option Str) : Store :=
  ⟨defaults, [], false, customerId, items, files, credential, [], [], 0, (defaults, []), 0⟩

def isValidCustomerId (id : Str) : Bool :=
  decide (1 ≤ id.length ∧ id.length ≤ 64) &&
    id.all fun c => decide (0x30 ≤ c ∧ c ≤ 0x39 ∨ 0x41 ≤ c ∧ c ≤ 0x5A ∨ 0x61 ≤ c ∧ c ≤ 0x7A ∨ c = 0x5F ∨ c = 0x2D)

/-- `readJsonSafe` -/
def readJsonSafe : Entry → Option Entry
  | .absent | .malformed | .null => none
  | entry => some entry

/-- `bridge:load-settings` -/
def Store.loadFile (s : Store) : Option Str → Option Entry
  | none => readJsonSafe (s.files none)
  | some id =>
    if isValidCustomerId id then (readJsonSafe (s.files (some id))).or (readJsonSafe (s.files none)) else none

/-- `bridge:save-settings` -/
def Store.saveFile (s : Store) (data : SettingsData) : Option Str → Store
  | none => { s with files := Function.update s.files none (.object data) }
  | some id => if isValidCustomerId id then { s with files := Function.update s.files (some id) (.object data) } else s

/-- The second half of `readPersisted`. -/
def Store.readLocal (s : Store) : Option SettingsData :=
  match s.items s.customerId with
  | .object data => some data
  | .malformed | .null | .scalar => none
  | .absent =>
    match s.items none with
    | .object data => some data
    | _ => none

/-- `readPersisted` when the answer of the bridge is there. -/
def Store.readPersisted (s : Store) (ok : Bool) (saved : Option Entry) : Option SettingsData :=
  match ok, saved with
  | true, some (.object data) => some data
  | _, _ => s.readLocal

def Store.wait (s : Store) (id : ℕ) (phase : LoadPhase) : Store := { s with loads := OrderedDict.assign id phase s.loads }

def Store.waitSave (s : Store) (id : ℕ) (phase : SavePhase) : Store := { s with saves := OrderedDict.assign id phase s.saves }

def Store.loadSettings (s : Store) : Store := { s.wait s.made (.begun false) with made := s.made + 1 }

section
variable (normalizeServiceBaseUrl : Str → Option Str) (bridge isDesktop : Bool)

/-- `loadSettings` when `readPersisted` has returned. -/
def Store.apply (s : Store) (id : ℕ) (late : Bool) (data : Option SettingsData) : Store :=
  let s := match data with
    | none => s
    | some data => { s with refs := applyData normalizeServiceBaseUrl data s.refs }
  if late then { s with loads := OrderedDict.pop id s.loads } else s.wait id .credential

def Store.saveSettings (s : Store) : Store :=
  match normalizeServiceBaseUrl s.refs.serverUrl with
  | none => s
  | some url =>
    let s := { s with refs := { s.refs with serverUrl := url } }
    { s.waitSave s.made (.begun (settingsData s.refs)) with made := s.made + 1 }

/-- The save after the bridge: the item, and the password of this moment. -/
def Store.saveLocal (s : Store) (id : ℕ) (data : SettingsData) (stored : Bool) : Store :=
  let s := if stored then { s with items := Function.update s.items s.customerId (.object data) } else s
  s.waitSave id (.credential (if s.sshPassword = [] then none else some s.sshPassword))

inductive Event
  | edit (refs : Refs) (sshPassword : Str)
  | resetRemoteDefaults
  | saveSettings
  | loadSettings
  /-- the watcher runs -/
  | flush
  | logout
  | login (customerId : Str)
  | pywebviewready
  | loadBridge (id : ℕ) (available : Bool)
  | loadRead (id : ℕ)
  | loadReturn (id : ℕ) (ok : Bool)
  | credentialRead (id : ℕ) (ok : Bool)
  | credentialReturn (id : ℕ)
  | saveBridge (id : ℕ) (available stored : Bool)
  | saveWrite (id : ℕ) (ok : Bool)
  | saveReturn (id : ℕ) (stored : Bool)
  | credentialWrite (id : ℕ) (ok : Bool)
deriving DecidableEq

def Store.step (s : Store) : Event → Store
  | .edit refs sshPassword => { s with refs := refs, sshPassword := sshPassword }
  | .resetRemoteDefaults =>
    { s with
      refs := { s.refs with vmHost := defaults.vmHost, sshPort := defaults.sshPort, sshUser := defaults.sshUser }
      sshPassword := [] }
  | .saveSettings => s.saveSettings normalizeServiceBaseUrl
  | .loadSettings => s.loadSettings
  | .flush =>
    if (s.refs, s.sshPassword) = s.seen then s
    else
      let s := { s with seen := (s.refs, s.sshPassword) }
      if s.loaded then s.saveSettings normalizeServiceBaseUrl else s
  | .logout => { s with customerId := none }.loadSettings
  | .login customerId => { s with customerId := if customerId = [] then none else some customerId }.loadSettings
  | .pywebviewready =>
    if s.listeners = 0 then s
    else { s.wait s.made (.begun true) with listeners := s.listeners - 1, made := s.made + 1 }
  | .loadBridge id available =>
    match OrderedDict.get id s.loads with
    | some (.begun late) =>
      if bridge && available then s.wait id (.requested late s.customerId) else s.apply normalizeServiceBaseUrl id late s.readLocal
    | _ => s
  | .loadRead id =>
    match OrderedDict.get id s.loads with
    | some (.requested late customerId) => s.wait id (.answered late (s.loadFile customerId))
    | _ => s
  | .loadReturn id ok =>
    match OrderedDict.get id s.loads with
    | some (.answered late saved) =>
      s.apply normalizeServiceBaseUrl id late (s.readPersisted ok saved)
    | _ => s
  | .credentialRead id ok =>
    match OrderedDict.get id s.loads with
    | some .credential => s.wait id (.credentialRead (if ok then s.credential else none))
    | _ => s
  | .credentialReturn id =>
    match OrderedDict.get id s.loads with
    | some (.credentialRead password) =>
      { s with
        sshPassword := if password.getD [] = [] then s.sshPassword else password.getD []
        loaded := true
        loads := OrderedDict.pop id s.loads
        listeners := if isDesktop then s.listeners else s.listeners + 1 }
    | _ => s
  | .saveBridge id available stored =>
    match OrderedDict.get id s.saves with
    | some (.begun data) => if bridge && available then s.waitSave id (.requested data s.customerId) else s.saveLocal id data stored
    | _ => s
  | .saveWrite id ok =>
    match OrderedDict.get id s.saves with
    | some (.requested data customerId) => (if ok then s.saveFile data customerId else s).waitSave id (.written data)
    | _ => s
  | .saveReturn id stored =>
    match OrderedDict.get id s.saves with
    | some (.written data) => s.saveLocal id data stored
    | _ => s
  | .credentialWrite id ok =>
    match OrderedDict.get id s.saves with
    | some (.credential password) =>
      { s with credential := if ok then password else s.credential, saves := OrderedDict.pop id s.saves }
    | _ => s

def machine : Machine Store Event Unit := ⟨fun s e => (s.step normalizeServiceBaseUrl bridge isDesktop e, ())⟩

/-- What runs by itself, and the loads of the views. -/
def Event.background : Event → Bool
  | .edit _ _ | .resetRemoteDefaults | .saveSettings | .logout | .login _ => false
  | _ => true

/-- Nothing is in flight, and the watcher has run. -/
structure Done (s : Store) : Prop where
  loads : s.loads = []
  saves : s.saves = []
  seen : s.seen = (s.refs, s.sshPassword)

/-- What is shown, and what is kept under the key of a user. -/
structure Same (id : Str) (s t : Store) : Prop where
  refs : s.refs = t.refs
  sshPassword : s.sshPassword = t.sshPassword
  items : s.items (some id) = t.items (some id)
  files : bridge = true → isValidCustomerId id = true → s.files (some id) = t.files (some id)

/-- The record of a user is complete wherever it is kept. -/
structure Kept (id : Str) (values : Refs) (s : Store) : Prop where
  items : s.items (some id) = .object (settingsData values)
  files : bridge = true → isValidCustomerId id = true → s.files (some id) = .object (settingsData values)

/-- Before the login: nothing is in flight, the record of the new user is complete, and no
other password is kept than the one of the store. -/
structure Ready (id : Str) (values : Refs) (s : Store) : Prop where
  done : Done s
  kept : Kept bridge id values s
  credential : ∀ password ∈ s.credential, password = s.sshPassword
  named : id ≠ []

/-! ### After the login -/

/-- A load that has not applied a record yet. -/
def LoadPhase.Pending : LoadPhase → Prop
  | .begun _ | .requested _ _ | .answered _ _ => True
  | .credential | .credentialRead _ => False

def LoadPhase.For (id : Str) (values : Refs) (password : Str) : LoadPhase → Prop
  | .begun _ | .credential => True
  | .requested _ customerId => customerId = some id ∧ bridge = true
  | .answered _ saved => saved = if isValidCustomerId id then some (.object (settingsData values)) else none
  | .credentialRead read => ∀ q ∈ read, q = password

def SavePhase.For (id : Str) (values : Refs) (password : Str) : SavePhase → Prop
  | .begun data | .written data => data = settingsData values
  | .requested data customerId => data = settingsData values ∧ customerId = some id
  | .credential stored => ∀ q ∈ stored, q = password

/-- From the login on. Until a load has applied the record, the refs are those that were left
there, and nothing saves them. -/
structure Switching (id : Str) (values : Refs) (password : Str) (s : Store) : Prop where
  customerId : s.customerId = some id
  kept : Kept bridge id values s
  sshPassword : s.sshPassword = password
  credential : ∀ q ∈ s.credential, q = password
  loads : ∀ n phase, OrderedDict.get n s.loads = some phase → phase.For bridge id values password
  saves : ∀ n phase, OrderedDict.get n s.saves = some phase → phase.For id values password
  shown : s.refs = values ∨
    (s.saves = [] ∧ s.seen = (s.refs, password) ∧ ∃ n phase, OrderedDict.get n s.loads = some phase ∧ phase.Pending)

variable {normalizeServiceBaseUrl bridge isDesktop} {id : Str} {values : Refs} {password : Str} {s : Store}

theorem get_assign {n m : ℕ} {phase new : LoadPhase} {loads : List (ℕ × LoadPhase)}
    (hget : OrderedDict.get n (OrderedDict.assign m new loads) = some phase) :
    (n = m ∧ phase = new) ∨ (n ≠ m ∧ OrderedDict.get n loads = some phase) := by
  by_cases hn : n = m
  · rw [hn, OrderedDict.get_assign_self] at hget
    cases hget
    exact Or.inl ⟨hn, rfl⟩
  · rw [OrderedDict.get_assign_ne hn] at hget
    exact Or.inr ⟨hn, hget⟩

/-- A load goes on without having applied anything. -/
theorem Switching.wait (h : Switching bridge id values password s) {n : ℕ} {new : LoadPhase} (hfor : new.For bridge id values password)
    (hpending : ∀ old, OrderedDict.get n s.loads = some old → old.Pending → new.Pending) :
    Switching bridge id values password (s.wait n new) := by
  refine ⟨h.customerId, ⟨h.kept.items, h.kept.files⟩, h.sshPassword, h.credential, fun m phase hget => ?_, h.saves, ?_⟩
  · rcases get_assign hget with ⟨rfl, rfl⟩ | ⟨-, hget⟩
    · exact hfor
    · exact h.loads m phase hget
  · rcases h.shown with hrefs | ⟨hsaves, hseen, m, phase, hget, hpend⟩
    · exact Or.inl hrefs
    · refine Or.inr ⟨hsaves, hseen, ?_⟩
      by_cases hm : m = n
      · rw [hm] at hget
        exact ⟨n, new, OrderedDict.get_assign_self .., hpending phase hget hpend⟩
      · exact ⟨m, phase, (OrderedDict.get_assign_ne hm ..).trans hget, hpend⟩

/-- A new load. -/
theorem Switching.begun (h : Switching bridge id values password s) (late : Bool) (listeners : ℕ) :
    Switching bridge id values password { s.wait s.made (.begun late) with listeners := listeners, made := s.made + 1 } := by
  have hwait : Switching bridge id values password (s.wait s.made (.begun late)) := h.wait trivial fun _ _ _ => trivial
  exact ⟨hwait.customerId, ⟨hwait.kept.items, hwait.kept.files⟩, hwait.sshPassword, hwait.credential, hwait.loads, hwait.saves, hwait.shown⟩

theorem Switching.apply (h : Switching bridge id values password s) (hcanonical : Canonical normalizeServiceBaseUrl values) (n : ℕ)
    (late : Bool) : Switching bridge id values password (s.apply normalizeServiceBaseUrl n late (some (settingsData values))) := by
  have hrefs := applyData_settingsData normalizeServiceBaseUrl hcanonical s.refs
  unfold Store.apply
  cases late with
  | true =>
    refine ⟨h.customerId, ⟨h.kept.items, h.kept.files⟩, h.sshPassword, h.credential, fun m phase hget => ?_, h.saves, Or.inl hrefs⟩
    by_cases hm : m = n
    · have hnone : OrderedDict.get m (OrderedDict.pop n s.loads) = none := by
        rw [hm]
        exact OrderedDict.get_pop_self ..
      exact absurd (hnone.symm.trans hget) (by simp)
    · exact h.loads m phase ((OrderedDict.get_pop_ne hm _).symm.trans hget)
  | false =>
    refine ⟨h.customerId, ⟨h.kept.items, h.kept.files⟩, h.sshPassword, h.credential, fun m phase hget => ?_, h.saves, Or.inl hrefs⟩
    rcases get_assign hget with ⟨rfl, rfl⟩ | ⟨-, hget⟩
    · trivial
    · exact h.loads m phase hget

theorem Switching.readLocal (h : Switching bridge id values password s) : s.readLocal = some (settingsData values) := by
  unfold Store.readLocal
  rw [h.customerId, h.kept.items]

/-- Where something is saved, the record was applied. -/
theorem Switching.refs_of_save (h : Switching bridge id values password s) {n : ℕ} {phase : SavePhase}
    (hget : OrderedDict.get n s.saves = some phase) : s.refs = values := by
  rcases h.shown with hrefs | ⟨hsaves, -⟩
  · exact hrefs
  · rw [hsaves] at hget
    cases hget

theorem Switching.waitSave (h : Switching bridge id values password s) (hrefs : s.refs = values) {n : ℕ} {new : SavePhase}
    (hfor : new.For id values password) : Switching bridge id values password (s.waitSave n new) := by
  refine ⟨h.customerId, ⟨h.kept.items, h.kept.files⟩, h.sshPassword, h.credential, h.loads, fun m phase hget => ?_, Or.inl hrefs⟩
  have hget : OrderedDict.get m (OrderedDict.assign n new s.saves) = some phase := hget
  by_cases hm : m = n
  · rw [hm, OrderedDict.get_assign_self] at hget
    cases hget
    exact hfor
  · rw [OrderedDict.get_assign_ne hm] at hget
    exact h.saves m phase hget

theorem Switching.saveSettings (h : Switching bridge id values password s) (hcanonical : Canonical normalizeServiceBaseUrl values)
    (hrefs : s.refs = values) : Switching bridge id values password (s.saveSettings normalizeServiceBaseUrl) := by
  have hurl : normalizeServiceBaseUrl s.refs.serverUrl = some s.refs.serverUrl := by
    rw [hrefs]
    exact hcanonical.serverUrl.1
  have hsave : Switching bridge id values password (s.waitSave s.made (.begun (settingsData s.refs))) :=
    h.waitSave hrefs (congrArg settingsData hrefs)
  unfold Store.saveSettings
  rw [hurl]
  exact ⟨hsave.customerId, ⟨hsave.kept.items, hsave.kept.files⟩, hsave.sshPassword, hsave.credential, hsave.loads, hsave.saves, hsave.shown⟩

theorem Switching.saveLocal (h : Switching bridge id values password s) (hrefs : s.refs = values) (n : ℕ) (stored : Bool) :
    Switching bridge id values password (s.saveLocal n (settingsData values) stored) := by
  have hfor : (SavePhase.credential (if s.sshPassword = [] then none else some s.sshPassword)).For id values password := by
    intro q hq
    split at hq
    · cases hq
    · cases hq
      exact h.sshPassword
  unfold Store.saveLocal
  cases stored with
  | false => exact h.waitSave hrefs hfor
  | true =>
    have hstored : Switching bridge id values password
        { s with items := Function.update s.items s.customerId (.object (settingsData values)) } := by
      refine ⟨h.customerId, ⟨?_, h.kept.files⟩, h.sshPassword, h.credential, h.loads, h.saves, h.shown⟩
      dsimp only
      rw [h.customerId, Function.update_self]
    exact hstored.waitSave hrefs hfor

theorem Switching.saveFile (h : Switching bridge id values password s) :
    Switching bridge id values password (s.saveFile (settingsData values) (some id)) := by
  simp only [Store.saveFile]
  split
  · refine ⟨h.customerId, ⟨h.kept.items, fun _ _ => ?_⟩, h.sshPassword, h.credential, h.loads, h.saves, h.shown⟩
    exact Function.update_self ..
  · exact h

theorem switching_step (hcanonical : Canonical normalizeServiceBaseUrl values) (h : Switching bridge id values password s) {e : Event}
    (he : e.background = true) : Switching bridge id values password (s.step normalizeServiceBaseUrl bridge isDesktop e) := by
  cases e with
  | edit refs sshPassword => cases he
  | resetRemoteDefaults => cases he
  | saveSettings => cases he
  | logout => cases he
  | login customerId => cases he
  | loadSettings => exact h.begun false s.listeners
  | flush =>
    simp only [Store.step]
    split
    · exact h
    · next hchanged =>
      rcases h.shown with hrefs | ⟨-, hseen, -⟩
      · have hflushed : Switching bridge id values password { s with seen := (s.refs, s.sshPassword) } :=
          ⟨h.customerId, ⟨h.kept.items, h.kept.files⟩, h.sshPassword, h.credential, h.loads, h.saves, Or.inl hrefs⟩
        split
        · exact hflushed.saveSettings hcanonical hrefs
        · exact hflushed
      · exact absurd (by rw [hseen, h.sshPassword]) hchanged
  | pywebviewready =>
    simp only [Store.step]
    split
    · exact h
    · exact h.begun true (s.listeners - 1)
  | loadBridge n available =>
    simp only [Store.step]
    split
    · split
      · next hbridge =>
        rw [Bool.and_eq_true] at hbridge
        exact h.wait ⟨h.customerId, hbridge.1⟩ fun _ _ _ => trivial
      · rw [h.readLocal]
        exact h.apply hcanonical n _
    · exact h
  | loadRead n =>
    simp only [Store.step]
    split
    · next late customerId hget =>
      obtain ⟨rfl, hbridge⟩ := h.loads n _ hget
      refine h.wait ?_ fun _ _ _ => trivial
      show s.loadFile (some id) = if isValidCustomerId id then some (.object (settingsData values)) else none
      unfold Store.loadFile
      dsimp only
      split
      · next hvalid =>
        rw [h.kept.files hbridge hvalid]
        rfl
      · rfl
    · exact h
  | loadReturn n ok =>
    simp only [Store.step]
    split
    · next late saved hget =>
      have hsaved := h.loads n _ hget
      have hdata : s.readPersisted ok saved = some (settingsData values) := by
        rw [hsaved]
        by_cases hvalid : isValidCustomerId id = true
        · rw [if_pos hvalid]
          cases ok with
          | true => rfl
          | false => exact h.readLocal
        · rw [if_neg hvalid]
          cases ok <;> exact h.readLocal
      rw [hdata]
      exact h.apply hcanonical n late
    · exact h
  | credentialRead n ok =>
    simp only [Store.step]
    split
    · next hget =>
      refine h.wait (fun q hq => ?_) fun old hold hpending => ?_
      · split at hq
        · exact h.credential q hq
        · cases hq
      · rw [hget] at hold
        cases hold
        exact hpending
    · exact h
  | credentialReturn n =>
    simp only [Store.step]
    split
    · next read hget =>
      have hread := h.loads n _ hget
      refine ⟨h.customerId, ⟨h.kept.items, h.kept.files⟩, ?_, h.credential, fun m phase hphase => ?_, h.saves, ?_⟩
      · dsimp only
        split
        · exact h.sshPassword
        · cases read with
          | none => exact absurd rfl ‹¬ (none : Option Str).getD [] = []›
          | some q => exact hread q rfl
      · by_cases hm : m = n
        · rw [hm] at hphase
          exact absurd ((OrderedDict.get_pop_self n s.loads).symm.trans hphase) (by simp)
        · exact h.loads m phase ((OrderedDict.get_pop_ne hm _).symm.trans hphase)
      · rcases h.shown with hrefs | ⟨hsaves, hseen, m, phase, hphase, hpending⟩
        · exact Or.inl hrefs
        · refine Or.inr ⟨hsaves, hseen, m, phase, ?_, hpending⟩
          have hm : m ≠ n := by
            rintro rfl
            rw [hget] at hphase
            cases hphase
            exact hpending
          exact (OrderedDict.get_pop_ne hm _).trans hphase
    · exact h
  | saveBridge n available stored =>
    simp only [Store.step]
    split
    · next data hget =>
      obtain rfl := h.saves n _ hget
      have hrefs := h.refs_of_save hget
      split
      · exact h.waitSave hrefs ⟨rfl, h.customerId⟩
      · exact h.saveLocal hrefs n stored
    · exact h
  | saveWrite n ok =>
    simp only [Store.step]
    split
    · next data customerId hget =>
      obtain ⟨rfl, rfl⟩ := h.saves n _ hget
      have hrefs := h.refs_of_save hget
      cases ok with
      | true =>
        have hrefs' : (s.saveFile (settingsData values) (some id)).refs = values := by
          simp only [Store.saveFile]
          split <;> exact hrefs
        exact h.saveFile.waitSave hrefs' rfl
      | false => exact h.waitSave hrefs rfl
    · exact h
  | saveReturn n stored =>
    simp only [Store.step]
    split
    · next data hget =>
      obtain rfl := h.saves n _ hget
      exact h.saveLocal (h.refs_of_save hget) n stored
    · exact h
  | credentialWrite n ok =>
    simp only [Store.step]
    split
    · next stored hget =>
      have hstored := h.saves n _ hget
      have hrefs := h.refs_of_save hget
      refine ⟨h.customerId, ⟨h.kept.items, h.kept.files⟩, h.sshPassword, fun q hq => ?_, h.loads, fun m phase hphase => ?_, Or.inl hrefs⟩
      · dsimp only at hq
        split at hq
        · exact hstored q hq
        · exact h.credential q hq
      · by_cases hm : m = n
        · rw [hm] at hphase
          exact absurd ((OrderedDict.get_pop_self n s.saves).symm.trans hphase) (by simp)
        · exact h.saves m phase ((OrderedDict.get_pop_ne hm _).symm.trans hphase)
    · exact h

theorem login_switching (h : Ready bridge id values s) :
    Switching bridge id values s.sshPassword (s.step normalizeServiceBaseUrl bridge isDesktop (.login id)) := by
  have hcustomer : (s.step normalizeServiceBaseUrl bridge isDesktop (.login id)).customerId = some id := if_neg h.named
  refine ⟨hcustomer, ⟨h.kept.items, h.kept.files⟩, rfl, h.credential, fun n phase hget => ?_, fun n phase hget => ?_, Or.inr ?_⟩
  · rcases get_assign hget with ⟨-, rfl⟩ | ⟨-, hget⟩
    · trivial
    · rw [h.done.loads] at hget
      cases hget
  · have hget : OrderedDict.get n s.saves = some phase := hget
    rw [h.done.saves] at hget
    cases hget
  · exact ⟨h.done.saves, h.done.seen, s.made, .begun false, OrderedDict.get_assign_self .., trivial⟩

theorem switching_run (hcanonical : Canonical normalizeServiceBaseUrl values) (h : Switching bridge id values password s) {is : List Event}
    (his : ∀ e ∈ is, e.background = true) :
    Switching bridge id values password ((machine normalizeServiceBaseUrl bridge isDesktop).run s is) := by
  induction is generalizing s with
  | nil => exact h
  | cons e is ih =>
    exact ih (switching_step hcanonical h (his e (List.mem_cons_self ..))) fun d hd => his d (List.mem_cons_of_mem _ hd)

/-- When everything is over, the record of the new user is shown. -/
theorem Switching.done (h : Switching bridge id values password s) (hd : Done s) : s.refs = values := by
  rcases h.shown with hrefs | ⟨-, -, n, phase, hget, -⟩
  · exact hrefs
  · rw [hd.loads] at hget
    cases hget

theorem run_login (hcanonical : Canonical normalizeServiceBaseUrl values) {before after : List Event}
    (h : Ready bridge id values ((machine normalizeServiceBaseUrl bridge isDesktop).run s before))
    (hafter : ∀ e ∈ after, e.background = true) :
    Switching bridge id values ((machine normalizeServiceBaseUrl bridge isDesktop).run s before).sshPassword
      ((machine normalizeServiceBaseUrl bridge isDesktop).run s (before ++ .login id :: after)) := by
  have hlogin : Switching bridge id values ((machine normalizeServiceBaseUrl bridge isDesktop).run s before).sshPassword
      (((machine normalizeServiceBaseUrl bridge isDesktop).run s before).step normalizeServiceBaseUrl bridge isDesktop (.login id)) :=
    login_switching h
  rw [Machine.run_append, Machine.run_cons]
  exact switching_run hcanonical hlogin hafter

/-- Two runs whose new user has a complete record, and in which nothing is in flight at the
login, end in the same settings exactly when they had the same SSH password there. -/
theorem settings_switch {s₁ s₂ : Store} {before₁ before₂ after₁ after₂ : List Event} (hcanonical : Canonical normalizeServiceBaseUrl values)
    (h₁ : Ready bridge id values ((machine normalizeServiceBaseUrl bridge isDesktop).run s₁ before₁))
    (h₂ : Ready bridge id values ((machine normalizeServiceBaseUrl bridge isDesktop).run s₂ before₂))
    (hafter₁ : ∀ e ∈ after₁, e.background = true) (hafter₂ : ∀ e ∈ after₂, e.background = true)
    (hd₁ : Done ((machine normalizeServiceBaseUrl bridge isDesktop).run s₁ (before₁ ++ .login id :: after₁)))
    (hd₂ : Done ((machine normalizeServiceBaseUrl bridge isDesktop).run s₂ (before₂ ++ .login id :: after₂))) :
    Same bridge id ((machine normalizeServiceBaseUrl bridge isDesktop).run s₁ (before₁ ++ .login id :: after₁))
        ((machine normalizeServiceBaseUrl bridge isDesktop).run s₂ (before₂ ++ .login id :: after₂)) ↔
      ((machine normalizeServiceBaseUrl bridge isDesktop).run s₁ before₁).sshPassword =
        ((machine normalizeServiceBaseUrl bridge isDesktop).run s₂ before₂).sshPassword := by
  have hs₁ := run_login hcanonical h₁ hafter₁
  have hs₂ := run_login hcanonical h₂ hafter₂
  constructor
  · intro h
    rw [← hs₁.sshPassword, ← hs₂.sshPassword]
    exact h.sshPassword
  · intro h
    refine ⟨?_, ?_, ?_, fun hbridge hvalid => ?_⟩
    · rw [hs₁.done hd₁, hs₂.done hd₂]
    · rw [hs₁.sshPassword, hs₂.sshPassword, h]
    · rw [hs₁.kept.items, hs₂.kept.items]
    · rw [hs₁.kept.files hbridge hvalid, hs₂.kept.files hbridge hvalid]

end

/-! ### Runs of two users -/

def sampleUrl (url : Str) : Option Str := if url = str "http://127.0.0.1:8787" then some url else none

def sampleLoad (id : ℕ) : List Event :=
  [.loadBridge id true, .loadRead id, .loadReturn id true, .credentialRead id true, .credentialReturn id]

def sampleSave (id : ℕ) : List Event :=
  [.flush, .saveBridge id true true, .saveWrite id true, .saveReturn id true, .credentialWrite id true]

/-- The first user loads, edits and saves, and logs out. -/
def sampleBefore (refs : Refs) (password : Str) : List Event :=
  .loadSettings :: sampleLoad 0 ++ .edit refs password :: sampleSave 1 ++ .logout :: sampleLoad 2

def sampleAfter : List Event := sampleLoad 3 ++ sampleSave 4

def sampleStored : Option Str → Entry := fun id => if id = some (str "b") then .object (settingsData defaults) else .absent

def sampleStart (stored : Option Str → Entry) : Store := initial stored stored none (some (str "a"))

def sampleRun (stored : Option Str → Entry) (refs : Refs) (password : Str) : Store :=
  (machine sampleUrl true true).run (sampleStart stored) (sampleBefore refs password ++ .login (str "b") :: sampleAfter)

def sampleDark : Refs := { defaults with theme := .dark }

def sampleHost : Refs := { defaults with vmHost := str "10.0.0.7" }

theorem sample_ready (refs : Refs) (h : refs = sampleDark ∨ refs = sampleHost) :
    Ready true (str "b") defaults ((machine sampleUrl true true).run (sampleStart sampleStored) (sampleBefore refs (str "secret"))) ∧
      Done (sampleRun sampleStored refs (str "secret")) := by
  have hcredential : ((machine sampleUrl true true).run (sampleStart sampleStored) (sampleBefore refs (str "secret"))).credential =
      some (str "secret") := by
    rcases h with rfl | rfl <;> decide +kernel
  refine ⟨⟨?_, ?_, ?_, by decide⟩, ?_⟩
  · rcases h with rfl | rfl
    · exact ⟨by decide +kernel, by decide +kernel, by decide +kernel⟩
    · exact ⟨by decide +kernel, by decide +kernel, by decide +kernel⟩
  · rcases h with rfl | rfl
    · exact ⟨by decide +kernel, fun _ _ => by decide +kernel⟩
    · exact ⟨by decide +kernel, fun _ _ => by decide +kernel⟩
  · rw [hcredential]
    rcases h with rfl | rfl
    · rintro _ ⟨⟩
      decide +kernel
    · rintro _ ⟨⟩
      decide +kernel
  · rcases h with rfl | rfl
    · exact ⟨by decide +kernel, by decide +kernel, by decide +kernel⟩
    · exact ⟨by decide +kernel, by decide +kernel, by decide +kernel⟩

theorem sample_same : Same true (str "b") (sampleRun sampleStored sampleDark (str "secret")) (sampleRun sampleStored sampleHost (str "secret")) :=
  have hdark := sample_ready sampleDark (Or.inl rfl)
  have hhost := sample_ready sampleHost (Or.inr rfl)
  (settings_switch ⟨by decide +kernel, by decide +kernel⟩ hdark.1 hhost.1 (by decide) (by decide) hdark.2 hhost.2).mpr (by decide +kernel)

/-- A user without a record gets the theme of the one before, also under the own key, and a
user with one gets the SSH password. -/
theorem settings_switch_fails :
    (¬ Same true (str "b") (sampleRun (fun _ => .absent) sampleDark []) (sampleRun (fun _ => .absent) sampleHost []) ∧
      (sampleRun (fun _ => .absent) sampleDark []).refs.theme = .dark ∧
      (sampleRun (fun _ => .absent) sampleHost []).refs.theme = .light) ∧
    ¬ Same true (str "b") (sampleRun sampleStored sampleDark (str "secret")) (sampleRun sampleStored sampleDark (str "other")) := by
  refine ⟨⟨fun h => absurd h.refs (by decide +kernel), by decide +kernel, by decide +kernel⟩, fun h => ?_⟩
  exact absurd h.sshPassword (by decide +kernel)

end AgentWorkflow.Desktop.SettingsSwitch
