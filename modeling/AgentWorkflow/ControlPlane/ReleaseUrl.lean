import AgentWorkflow.Lib.PyUrl

/-!
# The allow-list of release URLs

`validate_release_url` accepts a URL whose host is that of a configured prefix and whose
path starts with the prefix's path. Every other check is there so that the path cannot
mean anything else to the client that fetches it.
-/

namespace AgentWorkflow.ControlPlane.ReleaseUrl
open AgentWorkflow.Lib AgentWorkflow.Lib.PyStr AgentWorkflow.Lib.PosixPath AgentWorkflow.Lib.PyUrl

structure ReleasePrefix where
  host : PyStr
  path : PyStr
  deriving DecidableEq, Repr

def defaultPrefix : PyStr := ofString "https://releases.example.invalid/releases/"

/-- A `ValueError` unless the condition holds. -/
def require (condition : Prop) [Decidable condition] (message : String) : Except String Unit :=
  if condition then .ok () else .error message

/-- `[a-z0-9](?:[a-z0-9-]{0,61}[a-z0-9])?` -/
def isLabel (label : PyStr) : Bool :=
  let alnum := oneOf "abcdefghijklmnopqrstuvwxyz0123456789"
  decide (label.length ≤ 63) && (label.all fun c => alnum c || oneOf "-" c) &&
    (label.head?.any alnum) && (label.getLast?.any alnum)

/-- The checks of a host that is no IP address. -/
def checkHostname (host : PyStr) : Except String Unit := do
  require (isAscii host = true) "release URL hostname must be ASCII"
  require (host.length ≤ 253 ∧ dot ∈ host ∧ host.head? ≠ some dot ∧ host.getLast? ≠ some dot)
    "release URL host is not canonical"
  require (((host.splitOn dot).all isLabel) = true) "release URL host is not canonical"
  require (((host.splitOn dot).getLastD []).any (oneOf "abcdefghijklmnopqrstuvwxyz") = true)
    "release URL host is an ambiguous numeric address"

def checkHost (lib : Library) (host : PyStr) : Except String Unit := do
  require (host ≠ ofString "localhost" ∧ host ≠ ofString "localhost.localdomain" ∧ ¬ ofString ".localhost" <:+ host)
    "release URL host must not be loopback"
  match lib.ipAddress host with
  | none => checkHostname host
  | some address => require (address.isGlobal = true) "release URL IP must be globally routable"

def checkPath (path : PyStr) (isPrefix : Bool) : Except String Unit := do
  require (unquote path = path ∧ ¬ [slash, slash] <:+: path)
    "release URL path must not use encoded or repeated separators"
  require (∀ part ∈ path.splitOn slash, part ≠ [dot] ∧ part ≠ [dot, dot])
    "release URL path must not contain dot segments"
  require ([slash] <+: normpath path) "release URL path must be absolute"
  if isPrefix then require ([slash] <:+ path) "release prefix must end with a slash"
  else require (¬ [slash] <:+ path ∧ path ≠ [slash]) "release artifact URL must name a file"

def parseHttpsUrl (lib : Library) (raw : PyStr) (isPrefix : Bool) : Except String (PyStr × PyStr) := do
  require (raw ≠ [] ∧ raw = strip raw) "release URL must be a non-empty canonical string"
  require ((raw.any fun ch => decide (ch.val < 0x20 ∨ ch = backslash)) = false)
    "release URL contains forbidden characters"
  let parsed ← urlsplit lib raw
  require (parsed.scheme = ofString "https") "release URL scheme must be https"
  require (parsed.username = none ∧ parsed.password = none) "release URL must not contain userinfo"
  require (parsed.query = [] ∧ parsed.fragment = []) "release URL must not contain query or fragment"
  match parsed.hostname lib with
  | none => .error "release URL requires a lowercase hostname"
  | some host =>
    require (host ≠ [] ∧ host = lib.lower host) "release URL requires a lowercase hostname"
    let port ← parsed.port
    require (port = none ∨ port = some 443) "release URL may use only the default HTTPS port"
    checkHost lib host
    checkPath parsed.path isPrefix
    return (host, parsed.path)

/-- The comma-separated values of the environment variable. -/
def prefixValues (env : Option PyStr) : List PyStr :=
  let raw := strip (env.getD [])
  if raw = [] then [defaultPrefix]
  else ((raw.splitOn (Fin.ofNat _ ','.toNat)).map strip).filter fun part => part ≠ []

def configuredPrefixes (lib : Library) (env : Option PyStr) : Except String (List ReleasePrefix) := do
  let prefixes ← (prefixValues env).mapM fun value => do
    let (host, path) ← parseHttpsUrl lib value true
    return (⟨host, path⟩ : ReleasePrefix)
  require (prefixes ≠ []) "at least one release prefix is required"
  return prefixes

def validateReleaseUrl (lib : Library) (env : Option PyStr) (url : PyStr) : Except String PyStr := do
  let (host, path) ← parseHttpsUrl lib url false
  let prefixes ← configuredPrefixes lib env
  if prefixes.any fun allowed => decide (host = allowed.host ∧ allowed.path <+: path) then return url
  else .error "release URL is outside the configured HTTPS prefixes"

def validateReleaseUrls (lib : Library) (env : Option PyStr) (urls : List PyStr) : Except String Unit :=
  urls.forM fun url => do
    let _ ← validateReleaseUrl lib env url

/-! ### What an accepted URL is -/

theorem bind_eq_ok {α β : Type} {x : Except String α} {f : α → Except String β} {b : β} :
    (x >>= f) = .ok b ↔ ∃ a, x = .ok a ∧ f a = .ok b := by
  cases x with
  | error e => simp [Bind.bind, Except.bind]
  | ok a => simp [Bind.bind, Except.bind]

theorem require_eq_ok {condition : Prop} [Decidable condition] {message : String} {u : Unit} :
    require condition message = .ok u ↔ condition := by
  unfold require
  split
  next h => simp [h]
  next h => simp [h]

/-- The path of an artifact that passed the checks has no other reading. -/
theorem checkPath_file {path : PyStr} (h : checkPath path false = .ok ()) :
    unquote path = path ∧ Clean path := by
  simp only [checkPath, bind_eq_ok, require_eq_ok, exists_const_iff, Bool.false_eq_true, if_false] at h
  obtain ⟨-, ⟨hunquote, hdoubled⟩, -, hdots, -, hnormal, htrailing, -⟩ := h
  exact ⟨hunquote, absolute_of_normpath hnormal, hdoubled, hdots, htrailing⟩

theorem checkPath_ofPrefix {path : PyStr} (h : checkPath path true = .ok ()) : [slash] <:+ path := by
  simp only [checkPath, bind_eq_ok, require_eq_ok, if_true] at h
  obtain ⟨-, -, -, -, -, -, htrailing⟩ := h
  exact htrailing

/-- What `_parse_https_url` has checked of the URL it returns a host and a path of. -/
structure Parsed (lib : Library) (raw host path : PyStr) (isPrefix : Bool) (parsed : SplitResult) : Prop where
  split : urlsplit lib raw = .ok parsed
  scheme : parsed.scheme = ofString "https"
  username : parsed.username = none
  password : parsed.password = none
  query : parsed.query = []
  fragment : parsed.fragment = []
  hostname : parsed.hostname lib = some host
  path_eq : parsed.path = path
  checked : checkPath path isPrefix = .ok ()

theorem parseHttpsUrl_ok {lib : Library} {raw host path : PyStr} {isPrefix : Bool}
    (h : parseHttpsUrl lib raw isPrefix = .ok (host, path)) : ∃ parsed, Parsed lib raw host path isPrefix parsed := by
  simp only [parseHttpsUrl, bind_eq_ok, require_eq_ok] at h
  obtain ⟨-, -, -, -, parsed, hsplit, -, hscheme, -, ⟨hname, hpass⟩, -, ⟨hquery, hfragment⟩, h⟩ := h
  cases hhost : parsed.hostname lib with
  | none => simp [hhost] at h
  | some host' =>
    simp only [hhost, bind_eq_ok, require_eq_ok] at h
    obtain ⟨-, -, port, -, -, -, -, -, ⟨⟩, hpath, heq⟩ := h
    cases heq
    exact ⟨parsed, hsplit, hscheme, hname, hpass, hquery, hfragment, hhost, rfl, hpath⟩

theorem mem_of_mapM_ok {α β : Type} {f : α → Except String β} {xs : List α} {ys : List β} (h : xs.mapM f = .ok ys)
    {y : β} (hy : y ∈ ys) : ∃ x ∈ xs, f x = .ok y := by
  induction xs generalizing ys with
  | nil =>
    cases h
    cases hy
  | cons x xs ih =>
    rw [List.mapM_cons] at h
    simp only [bind_eq_ok] at h
    obtain ⟨first, hfirst, rest, hrest, hcons⟩ := h
    cases hcons
    rcases List.mem_cons.mp hy with rfl | hmem
    · exact ⟨x, List.mem_cons_self, hfirst⟩
    · obtain ⟨z, hz, hfound⟩ := ih hrest hmem
      exact ⟨z, List.mem_cons_of_mem _ hz, hfound⟩

/-- The path of every configured prefix ends with a slash. -/
theorem configuredPrefixes_slash {lib : Library} {env : Option PyStr} {prefixes : List ReleasePrefix}
    (h : configuredPrefixes lib env = .ok prefixes) : ∀ allowed ∈ prefixes, [slash] <:+ allowed.path := by
  simp only [configuredPrefixes, bind_eq_ok, require_eq_ok] at h
  obtain ⟨found, hfound, -, -, heq⟩ := h
  cases heq
  intro allowed hallowed
  obtain ⟨value, -, hvalue⟩ := mem_of_mapM_ok hfound hallowed
  simp only [bind_eq_ok] at hvalue
  obtain ⟨⟨host, path⟩, hparse, hbelow⟩ := hvalue
  cases hbelow
  obtain ⟨_, hparsed⟩ := parseHttpsUrl_ok hparse
  exact checkPath_ofPrefix hparsed.checked

/-- An accepted URL is an https URL below a configured prefix, and stays below it when
its path is decoded and normalised. -/
theorem accepted_url_contained (lib : Library) (env : Option PyStr) (url answer : PyStr)
    (h : validateReleaseUrl lib env url = .ok answer) :
    answer = url ∧ ∃ parsed prefixes, urlsplit lib url = .ok parsed ∧ configuredPrefixes lib env = .ok prefixes ∧
      parsed.scheme = ofString "https" ∧ parsed.username = none ∧ parsed.password = none ∧
      parsed.query = [] ∧ parsed.fragment = [] ∧
      unquote parsed.path = parsed.path ∧ normpath (unquote parsed.path) = parsed.path ∧
      ∃ allowed ∈ prefixes, parsed.hostname lib = some allowed.host ∧ allowed.path <+: parsed.path ∧
        allowed.path.length < parsed.path.length := by
  simp only [validateReleaseUrl, bind_eq_ok] at h
  obtain ⟨⟨host, path⟩, hparse, prefixes, hprefixes, h⟩ := h
  obtain ⟨parsed, hparsed⟩ := parseHttpsUrl_ok hparse
  obtain ⟨hunquote, hclean⟩ := checkPath_file hparsed.checked
  split at h
  next hany =>
    cases h
    obtain ⟨allowed, hmem, hallowed⟩ := List.any_eq_true.mp hany
    obtain ⟨hhost, hbelow⟩ := of_decide_eq_true hallowed
    have hpath := hparsed.path_eq
    subst hpath
    refine ⟨rfl, parsed, prefixes, hparsed.split, hprefixes, hparsed.scheme, hparsed.username, hparsed.password,
      hparsed.query, hparsed.fragment, hunquote, ?_, allowed, hmem, hhost ▸ hparsed.hostname, hbelow, ?_⟩
    · rw [hunquote]
      exact hclean.normpath
    · -- the prefix ends with a slash and the path does not
      refine lt_of_le_of_ne hbelow.length_le fun hlen => ?_
      have hslash := configuredPrefixes_slash hprefixes allowed hmem
      rw [hbelow.eq_of_length hlen] at hslash
      exact hclean.no_trailing hslash
  next hnone => cases h

/-- Lower case of ASCII letters; nothing in the sample is an address or needs a table. -/
def sampleLibrary : Library where
  lower s := s.map fun c => if 0x41 ≤ c.val ∧ c.val ≤ 0x5A then Fin.ofNat _ (c.val + 0x20) else c
  nfkc s := s
  ipAddress _ := none

theorem accepted_url_contained_sample :
    ∃ parsed prefixes, urlsplit sampleLibrary (ofString "https://releases.example.invalid/releases/agent") = .ok parsed ∧
      configuredPrefixes sampleLibrary none = .ok prefixes ∧
      ∃ allowed ∈ prefixes, parsed.hostname sampleLibrary = some allowed.host ∧ allowed.path <+: parsed.path := by
  obtain ⟨-, parsed, prefixes, hsplit, hprefixes, -, -, -, -, -, -, -, allowed, hmem, hhost, hpath, -⟩ :=
    accepted_url_contained sampleLibrary none (ofString "https://releases.example.invalid/releases/agent")
      (ofString "https://releases.example.invalid/releases/agent") (by decide +kernel)
  exact ⟨parsed, prefixes, hsplit, hprefixes, allowed, hmem, hhost, hpath⟩

end AgentWorkflow.ControlPlane.ReleaseUrl
