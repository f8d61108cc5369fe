import AgentWorkflow.Lib.Calendar
import AgentWorkflow.Lib.Machine

/-!
# The desktop's HTTP client (`src/api/client.ts`)

A request fixes its URL when it starts and builds its headers anew for each of its
attempts, from the fields the client has then. Between two attempts it sleeps, and any
other call may come in between. `tokenBase` and `csrfBase` remember the base URL that
was configured when the two secrets were set; the code has no such fields.
-/

namespace AgentWorkflow.Desktop
open AgentWorkflow.Lib AgentWorkflow.Lib.Calendar

/-- The empty text is the empty string of the code: nothing configured, no token. -/
structure ApiClient where
  baseUrl : Text
  token : Text
  csrfToken : Text
deriving DecidableEq

namespace ApiClient

def init : ApiClient := ⟨[], [], []⟩

def setBaseUrl (normalizeServiceBaseUrl : Text → Option Text) (url : Text) (c : ApiClient) : ApiClient :=
  match normalizeServiceBaseUrl url with
  | none => init
  | some normalized =>
    if normalized = [] then init
    else if c.baseUrl ≠ [] ∧ c.baseUrl ≠ normalized then ⟨normalized, [], []⟩
    else { c with baseUrl := normalized }

def setToken (token : Text) (c : ApiClient) : ApiClient := { c with token := token }

def setCsrfToken (csrf : Text) (c : ApiClient) : ApiClient := { c with csrfToken := csrf }

end ApiClient

structure Headers where
  authorization : Option Text
  csrf : Option Text
deriving DecidableEq

def ApiClient.buildHeaders (c : ApiClient) : Headers :=
  { authorization := if c.token = [] then none else some ("Bearer ".toList ++ c.token)
    csrf := if c.csrfToken = [] then none else some c.csrfToken }

namespace Requests

/-- `fetching`: an attempt is on its way. `sleeping`: the back-off before the next one. -/
inductive Pc where
  | fetching
  | sleeping
  | settled
deriving DecidableEq

/-- `retries` tells `request` from `postForm` and `getBlob`; `token` is the one the
last attempt carried. -/
structure Request where
  base : Text
  path : Text
  retries : Bool
  silent : Bool
  attempt : ℕ
  token : Text
  pc : Pc
deriving DecidableEq

/-- One HTTP attempt, with the base URLs that were configured when its token and
its CSRF token were set. -/
structure Sent where
  base : Text
  path : Text
  headers : Headers
  tokenBase : Text
  csrfBase : Text
deriving DecidableEq

structure State where
  client : ApiClient
  tokenBase : Text
  csrfBase : Text
  requests : List Request
  sent : List Sent
deriving DecidableEq

def State.init : State := ⟨.init, [], [], [], []⟩

inductive Answer where
  | failed
  | status (code : ℕ)
deriving DecidableEq

inductive Action where
  | setBaseUrl (url : Text)
  | setToken (token : Text)
  | setCsrfToken (csrf : Text)
  | request (path : Text) (retries silent offline : Bool)
  | answer (i : ℕ) (a : Answer)
  | wake (i : ℕ)

/-- What the caller's side of a request sees of a step. -/
inductive Event where
  | quiet
  | unauthorized (silent : Bool)
  | settled
deriving DecidableEq

def maxRetries : ℕ := 3

def retryable (code : ℕ) : Bool := code ∈ [429, 500, 502, 503]

def attempt (s : State) (r : Request) : Sent :=
  ⟨r.base, r.path, s.client.buildHeaders, s.tokenBase, s.csrfBase⟩

/-- `request`, `postForm` and `getBlob` up to the `fetch` of the first attempt. -/
def start (path : Text) (retries silent offline : Bool) (s : State) : State :=
  if offline ∨ s.client.baseUrl = [] then s
  else
    let r : Request := ⟨s.client.baseUrl, path, retries, silent, 0, s.client.token, .fetching⟩
    { s with requests := s.requests ++ [r], sent := s.sent ++ [attempt s r] }

def answer (i : ℕ) (a : Answer) (s : State) : State × Event :=
  match s.requests[i]? with
  | none => (s, .quiet)
  | some r =>
    if r.pc ≠ .fetching then (s, .quiet)
    else
      let settle := { s with requests := s.requests.set i { r with pc := .settled } }
      match a with
      | .failed => (settle, .settled)
      | .status code =>
        if code = 401 then (settle, .unauthorized r.silent)
        else if r.retries ∧ retryable code ∧ r.attempt < maxRetries then
          ({ s with requests := s.requests.set i { r with pc := .sleeping } }, .quiet)
        else (settle, .settled)

theorem answer_cases (i : ℕ) (a : Answer) (s : State) :
    (answer i a s).1 = s ∨ ∃ r pc, s.requests[i]? = some r ∧
      (answer i a s).1 = { s with requests := s.requests.set i { r with pc := pc } } := by
  unfold answer
  cases hr : s.requests[i]? with
  | none => exact Or.inl rfl
  | some r =>
    dsimp only
    split
    · exact Or.inl rfl
    · right
      cases a with
      | failed => exact ⟨r, .settled, rfl, rfl⟩
      | status code =>
        dsimp only
        split
        · exact ⟨r, .settled, rfl, rfl⟩
        · split
          · exact ⟨r, .sleeping, rfl, rfl⟩
          · exact ⟨r, .settled, rfl, rfl⟩

/-- The end of a back-off and the next attempt. -/
def wake (i : ℕ) (s : State) : State :=
  match s.requests[i]? with
  | none => s
  | some r =>
    if r.pc ≠ .sleeping then s
    else
      { s with
        requests := s.requests.set i { r with pc := .fetching, attempt := r.attempt + 1, token := s.client.token }
        sent := s.sent ++ [attempt s r] }

variable (normalizeServiceBaseUrl : Text → Option Text)

def step (s : State) : Action → State × Event
  | .setBaseUrl url => ({ s with client := s.client.setBaseUrl normalizeServiceBaseUrl url }, .quiet)
  | .setToken token => ({ s with client := s.client.setToken token, tokenBase := s.client.baseUrl }, .quiet)
  | .setCsrfToken csrf => ({ s with client := s.client.setCsrfToken csrf, csrfBase := s.client.baseUrl }, .quiet)
  | .request path retries silent offline => (start path retries silent offline s, .quiet)
  | .answer i a => answer i a s
  | .wake i => (wake i s, .quiet)

def machine : Machine State Action Event := ⟨step normalizeServiceBaseUrl⟩

end Requests

end AgentWorkflow.Desktop
