import AgentWorkflow.Desktop.ApiClient

/-!
# The auth store (`src/stores/auth.ts`)

`login`, `logout` and `checkSession` are coroutines that write the store's token and
user, the client's token and the account entries of localStorage after their awaits;
so does the 401 path of every request (`handleErrorStatus`, `handleUnauthorized`). What
a request of the auth endpoints brings back, and what the credential store and the
bridge return, is part of the step that resumes the coroutine. `current` is the login
that counts: completed, and since then no logout or login has started and no request
with its token was answered 401. The code has no such field.
-/

namespace AgentWorkflow.Desktop.Auth
open AgentWorkflow.Lib AgentWorkflow.Lib.Calendar

structure User where
  email : Text
  customerId : Text
deriving DecidableEq

structure Session where
  token : Text
  user : User
deriving DecidableEq

inductive Login where
  | requested (email : Text)
  | saving (session : Session)
  | saved (session : Session)
  | finished
deriving DecidableEq

inductive Check where
  | reading
  | bridging (token : Text) (user : User)
  | validating (token : Text) (user : User)
  | finished
deriving DecidableEq

structure State where
  api : Requests.State
  token : Text
  user : Option User
  -- localStorage: `awp_customer_id` and `awp_email`, empty when absent
  stored : User
  logins : List Login
  -- the calls of `logout` and whether they still wait
  logouts : List Bool
  checks : List Check
  staleClaimed : Bool
  current : Option Session
deriving DecidableEq

def State.init (base : Text) : State :=
  { api := { Requests.State.init with client := ⟨base, [], []⟩ }, token := [], user := none, stored := ⟨[], []⟩,
    logins := [], logouts := [], checks := [], staleClaimed := false, current := none }

inductive Validation where
  | valid (user : User)
  | invalid
  | unauthorized
  | unreachable
deriving DecidableEq

inductive Action where
  | login (email : Text)
  | loginAnswer (k : ℕ) (answer : Option (Text × Text))
  | credentialSaved (k : ℕ)
  | loginFinish (k : ℕ)
  | logout
  | logoutAnswer (k : ℕ)
  | clearAuth
  | checkSession
  | credentialRead (k : ℕ) (token : Text)
  | bridgeRead (k : ℕ) (user : User)
  | validation (k : ℕ) (v : Validation)
  | request (path : Text) (retries silent offline : Bool)
  | answer (i : ℕ) (a : Requests.Answer)
  | wake (i : ℕ)
  | staleExpires

/-- Whether the step calls `onUserChanged` of the chat store. -/
inductive Event where
  | quiet
  | userChanged
deriving DecidableEq

def setApiToken (token : Text) (s : State) : State :=
  { s with api := { s.api with client := s.api.client.setToken token, tokenBase := s.api.client.baseUrl } }

/-- `clearAuth` up to its call of `onUserChanged`. -/
def clear (s : State) : State :=
  { setApiToken [] s with token := [], user := none, stored := ⟨[], []⟩ }

/-- `token.value`, `user.value` and `api.setToken` of a login that was answered. -/
def adopt (session : Session) (s : State) : State :=
  { setApiToken session.token s with token := session.token, user := some session.user }

def loginAnswer (k : ℕ) (answer : Option (Text × Text)) (s : State) : State :=
  match s.logins[k]? with
  | some (.requested email) =>
    match answer with
    | none => { s with logins := s.logins.set k .finished }
    | some (apiKey, customerId) =>
      let session : Session := ⟨apiKey, ⟨email, customerId⟩⟩
      { adopt session s with logins := s.logins.set k (.saving session) }
  | _ => s

/-- `saveCredentials` after its await. -/
def credentialSaved (k : ℕ) (s : State) : State :=
  match s.logins[k]? with
  | some (.saving session) => { s with stored := session.user, logins := s.logins.set k (.saved session) }
  | _ => s

def loginFinish (k : ℕ) (s : State) : State × Event :=
  match s.logins[k]? with
  | some (.saved session) =>
    ({ s with logins := s.logins.set k .finished, current := some session }, .userChanged)
  | _ => (s, .quiet)

def logoutAnswer (k : ℕ) (s : State) : State × Event :=
  match s.logouts[k]? with
  | some true => ({ clear s with logouts := s.logouts.set k false }, .userChanged)
  | _ => (s, .quiet)

/-- `checkSession` once `loadCredentials` has returned. -/
def loaded (k : ℕ) (token : Text) (user : User) (s : State) : State :=
  if token = [] ∨ user.customerId = [] then { s with checks := s.checks.set k .finished }
  else { setApiToken token s with checks := s.checks.set k (.validating token user) }

def credentialRead (k : ℕ) (token : Text) (s : State) : State :=
  match s.checks[k]? with
  | some .reading =>
    if s.stored.customerId = [] ∨ s.stored.email = [] then
      { s with checks := s.checks.set k (.bridging token s.stored) }
    else loaded k token s.stored s
  | _ => s

def orElse (a b : Text) : Text := if a = [] then b else a

def User.orElse (a b : User) : User := ⟨Auth.orElse a.email b.email, Auth.orElse a.customerId b.customerId⟩

def bridgeRead (k : ℕ) (user : User) (s : State) : State :=
  match s.checks[k]? with
  | some (.bridging token candidate) => loaded k token (candidate.orElse user) s
  | _ => s

/-- The session `checkSession` restores. It does not tell the chat store. -/
def restore (k : ℕ) (token : Text) (user : User) (s : State) : State :=
  { s with token := token, user := some user, stored := user, checks := s.checks.set k .finished }

def validation (k : ℕ) (v : Validation) (s : State) : State × Event :=
  match s.checks[k]? with
  | some (.validating token candidate) =>
    match v with
    | .valid user => (restore k token (user.orElse candidate) s, .quiet)
    | .unreachable => (restore k token candidate s, .quiet)
    | .invalid | .unauthorized => ({ clear s with checks := s.checks.set k .finished }, .userChanged)
  | _ => (s, .quiet)

/-- The 401 branch of `handleErrorStatus` and `handleUnauthorized` after it. -/
def unauthorized (hosted silent : Bool) (s : State) : State × Event :=
  if hosted = false then (s, .quiet)
  else if silent ∨ s.staleClaimed then (clear s, .userChanged)
  else ({ clear s with staleClaimed := true }, .userChanged)

/-- The token of the last attempt of request `i`. -/
def sentToken (i : ℕ) (s : State) : Option Text := s.api.requests[i]?.map Requests.Request.token

def answer (hosted : Bool) (i : ℕ) (a : Requests.Answer) (s : State) : State × Event :=
  let out := Requests.answer i a s.api
  let s' := { s with api := out.1 }
  match out.2 with
  | .unauthorized silent =>
    let ended := if s.current.map Session.token = sentToken i s then none else s.current
    unauthorized hosted silent { s' with current := ended }
  | _ => (s', .quiet)

def step (hosted : Bool) (s : State) : Action → State × Event
  | .login email =>
    if hosted then ({ s with logins := s.logins ++ [.requested email], current := none }, .quiet) else (s, .quiet)
  | .loginAnswer k a => (loginAnswer k a s, .quiet)
  | .credentialSaved k => (credentialSaved k s, .quiet)
  | .loginFinish k => loginFinish k s
  | .logout =>
    if hosted then ({ s with logouts := s.logouts ++ [true], current := none }, .quiet)
    else ({ clear s with current := none }, .userChanged)
  | .logoutAnswer k => logoutAnswer k s
  | .clearAuth => ({ clear s with current := none }, .userChanged)
  | .checkSession =>
    if hosted ∧ s.token = [] then ({ s with checks := s.checks ++ [.reading] }, .quiet) else (s, .quiet)
  | .credentialRead k token => (credentialRead k token s, .quiet)
  | .bridgeRead k user => (bridgeRead k user s, .quiet)
  | .validation k v => validation k v s
  | .request path retries silent offline => ({ s with api := Requests.start path retries silent offline s.api }, .quiet)
  | .answer i a => answer hosted i a s
  | .wake i => ({ s with api := Requests.wake i s.api }, .quiet)
  | .staleExpires => ({ s with staleClaimed := false }, .quiet)

def machine (hosted : Bool) : Machine State Action Event := ⟨step hosted⟩

end AgentWorkflow.Desktop.Auth
