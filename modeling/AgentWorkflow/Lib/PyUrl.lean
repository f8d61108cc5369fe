import AgentWorkflow.Lib.Utf8
import AgentWorkflow.Lib.PosixPath

/-!
# URLs and paths of the Python standard library

`urllib.parse.urlsplit` with the attributes of its result, `unquote`, and
`posixpath.normpath`.
-/

namespace AgentWorkflow.Lib.PyUrl
open AgentWorkflow.Lib AgentWorkflow.Lib.PyStr AgentWorkflow.Lib.PosixPath

/-- An address as `ipaddress` classes it. -/
structure Address where
  isV4 : Bool
  isGlobal : Bool
  deriving DecidableEq, Repr

/-- What rests on Unicode's tables and on the registries of addresses: `str.lower`,
NFKC, and `ipaddress.ip_address` with `none` for its `ValueError`. -/
structure Library where
  lower : PyStr → PyStr
  nfkc : PyStr → PyStr
  ipAddress : PyStr → Option Address

def colon : CodePoint := 0x3A
def atSign : CodePoint := 0x40
def question : CodePoint := 0x3F
def hash : CodePoint := 0x23
def percent : CodePoint := 0x25
def openBracket : CodePoint := 0x5B
def closeBracket : CodePoint := 0x5D

/-! ### Strings -/

/-- `str.isspace` of one character -/
def isSpace (c : CodePoint) : Bool :=
  decide ((0x9 ≤ c.val ∧ c.val ≤ 0xD) ∨ (0x1C ≤ c.val ∧ c.val ≤ 0x20) ∨ (0x2000 ≤ c.val ∧ c.val ≤ 0x200A) ∨
    c.val ∈ [0x85, 0xA0, 0x1680, 0x2028, 0x2029, 0x202F, 0x205F, 0x3000])

def strip (s : PyStr) : PyStr := ((s.dropWhile isSpace).reverse.dropWhile isSpace).reverse

/-- Before the first `x`, whether there is one, and after it. -/
def partition (x : CodePoint) (s : PyStr) : PyStr × Bool × PyStr :=
  match s.dropWhile fun c => decide (c ≠ x) with
  | [] => (s, false, [])
  | _ :: after => (s.takeWhile fun c => decide (c ≠ x), true, after)

/-- The same for the last `x`. -/
def rpartition (x : CodePoint) (s : PyStr) : PyStr × Bool × PyStr :=
  match partition x s.reverse with
  | (after, true, before) => (before.reverse, true, after.reverse)
  | (_, false, _) => ([], false, s)

def isLetter (c : CodePoint) : Bool :=
  decide ((0x41 ≤ c.val ∧ c.val ≤ 0x5A) ∨ (0x61 ≤ c.val ∧ c.val ≤ 0x7A))

def isSchemeChar (c : CodePoint) : Bool := isLetter c || isDigit c || oneOf "+-." c

def isHex (c : CodePoint) : Bool := oneOf "0123456789abcdefABCDEF" c

/-! ### `urlsplit` -/

structure SplitResult where
  scheme : PyStr
  netloc : PyStr
  path : PyStr
  query : PyStr
  fragment : PyStr
  deriving DecidableEq, Repr

def splitScheme (lib : Library) (url : PyStr) : PyStr × PyStr :=
  match partition colon url with
  | (c :: head, true, rest) =>
    if isLetter c = true ∧ ((c :: head).all isSchemeChar) = true then (lib.lower (c :: head), rest) else ([], url)
  | _ => ([], url)

def delimits (c : CodePoint) : Bool := decide (c = slash) || decide (c = question) || decide (c = hash)

def splitNetloc (url : PyStr) : PyStr × PyStr :=
  (url.takeWhile fun c => !delimits c, url.dropWhile fun c => !delimits c)

/-- `v` with hexadecimal digits, a dot and more -/
def isIpvFuture (host : PyStr) : Bool :=
  match host with
  | [] => false
  | _ :: rest =>
    match rest.dropWhile isHex with
    | c :: d :: _ => decide (c = dot) && !(rest.takeWhile isHex).isEmpty && decide (d.val ≠ 0xA)
    | _ => false

def checkBracketedHost (lib : Library) (host : PyStr) : Except String Unit :=
  if host.head? = some 0x76 then
    if isIpvFuture host then .ok () else .error "IPvFuture address is invalid"
  else
    match lib.ipAddress host with
    | none => .error "does not appear to be an IPv4 or IPv6 address"
    | some ip => if ip.isV4 then .error "An IPv4 address cannot be in brackets" else .ok ()

def checkBrackets (lib : Library) (netloc : PyStr) : Except String Unit :=
  if (openBracket ∈ netloc ∧ closeBracket ∉ netloc) ∨ (closeBracket ∈ netloc ∧ openBracket ∉ netloc) then
    .error "Invalid IPv6 URL"
  else if openBracket ∈ netloc ∧ closeBracket ∈ netloc then
    checkBracketedHost lib (partition closeBracket (partition openBracket netloc).2.2).1
  else .ok ()

def checkNetloc (lib : Library) (netloc : PyStr) : Except String Unit :=
  let n := netloc.filter fun c => c ≠ atSign ∧ c ≠ colon ∧ c ≠ hash ∧ c ≠ question
  if isAscii netloc = true ∨ lib.nfkc n = n then .ok ()
  else if (lib.nfkc n).any fun c => oneOf "/?#@:" c then
    .error "netloc contains invalid characters under NFKC normalization"
  else .ok ()

def urlsplit (lib : Library) (url : PyStr) : Except String SplitResult := do
  let url := (url.dropWhile fun c => decide (c.val ≤ 0x20)).filter fun c => c.val ≠ 0x9 ∧ c.val ≠ 0xD ∧ c.val ≠ 0xA
  let (scheme, url) := splitScheme lib url
  let (netloc, url) := if [slash, slash] <+: url then splitNetloc (url.drop 2) else ([], url)
  checkBrackets lib netloc
  let (url, _, fragment) := partition hash url
  let (url, _, query) := partition question url
  checkNetloc lib netloc
  return ⟨scheme, netloc, url, query, fragment⟩

namespace SplitResult

variable (r : SplitResult)

def username : Option PyStr :=
  match rpartition atSign r.netloc with
  | (userinfo, true, _) => some (partition colon userinfo).1
  | _ => none

def password : Option PyStr :=
  match rpartition atSign r.netloc with
  | (userinfo, true, _) =>
    match partition colon userinfo with
    | (_, true, password) => some password
    | _ => none
  | _ => none

/-- The host and the port as they are written; brackets taken off. -/
def hostinfo : PyStr × Option PyStr :=
  let info := (rpartition atSign r.netloc).2.2
  let found := match partition openBracket info with
    | (_, true, bracketed) =>
      ((partition closeBracket bracketed).1, (partition colon (partition closeBracket bracketed).2.2).2.2)
    | _ => ((partition colon info).1, (partition colon info).2.2)
  (found.1, if found.2 = [] then none else some found.2)

/-- A zone after `%` keeps its case. -/
def hostname (lib : Library) : Option PyStr :=
  if r.hostinfo.1 = [] then none
  else
    match partition percent r.hostinfo.1 with
    | (name, true, zone) => some (lib.lower name ++ percent :: zone)
    | (name, false, _) => some (lib.lower name)

def port : Except String (Option ℕ) :=
  match r.hostinfo.2 with
  | none => .ok none
  | some text =>
    if (text.all isDigit) = true then
      let n := text.foldl (fun n c => 10 * n + (c.val - 0x30)) 0
      if n ≤ 65535 then .ok (some n) else .error "Port out of range 0-65535"
    else .error "Port could not be cast to integer value"

end SplitResult

/-! ### `unquote` -/

def hexValue (c : CodePoint) : ℕ :=
  if c.val ≤ 0x39 then c.val - 0x30 else if c.val ≤ 0x46 then c.val - 0x37 else c.val - 0x57

/-- The bytes of a run of ASCII characters, `%xx` taken as one. -/
def unquoteToBytes : PyStr → List UInt8
  | c :: a :: b :: rest =>
    if c = percent ∧ isHex a = true ∧ isHex b = true then
      (16 * hexValue a + hexValue b).toUInt8 :: unquoteToBytes rest
    else c.val.toUInt8 :: unquoteToBytes (a :: b :: rest)
  | c :: rest => c.val.toUInt8 :: unquoteToBytes rest
  | [] => []

/-- The runs of ASCII characters are decoded one by one, the rest is kept. -/
def unquoteRuns (run : PyStr) : PyStr → PyStr
  | [] => Utf8.decodeReplace (unquoteToBytes run)
  | c :: s =>
    if c.val < 0x80 then unquoteRuns (run ++ [c]) s
    else Utf8.decodeReplace (unquoteToBytes run) ++ c :: unquoteRuns [] s

def unquote (s : PyStr) : PyStr := if percent ∈ s then unquoteRuns [] s else s

/-! ### `normpath` -/

/-- One component of the loop, onto those kept. -/
def normalize (absolute : Bool) (kept : List PyStr) (comp : PyStr) : List PyStr :=
  if comp = [] ∨ comp = [dot] then kept
  else if comp ≠ [dot, dot] ∨ (absolute = false ∧ kept = []) ∨ kept.getLast? = some [dot, dot] then kept ++ [comp]
  else kept.dropLast

def initialSlashes (path : PyStr) : ℕ :=
  if [slash, slash] <+: path ∧ ¬ [slash, slash, slash] <+: path then 2 else if [slash] <+: path then 1 else 0

def normpath (path : PyStr) : PyStr :=
  if path = [] then [dot]
  else
    let n := initialSlashes path
    let comps := (path.splitOn slash).foldl (normalize (decide (0 < n))) []
    let result := List.replicate n slash ++ [slash].intercalate comps
    if result = [] then [dot] else result

/-- An empty component before the last one of `s` follows a doubled separator. -/
theorem doubled_of_empty {x : CodePoint} {s : PyStr} (h : [] ∈ (s.splitOn x).tail) : [x, x] <:+: s ++ [x] := by
  induction s with
  | nil => simp at h
  | cons c s ih =>
    rw [List.splitOn_cons_eq_if_modifyHead] at h
    split at h
    next hc =>
      obtain rfl := eq_of_beq hc
      rw [List.tail_cons] at h
      cases s with
      | nil => exact List.infix_rfl
      | cons d s =>
        by_cases hd : d = c
        · subst hd
          exact ⟨[], s ++ [d], by simp⟩
        · rw [List.splitOn_cons_eq_if_modifyHead, if_neg (by simpa using hd)] at h
          cases hs : s.splitOn c with
          | nil => exact absurd hs (List.splitOn_ne_nil c s)
          | cons q qs =>
            rw [hs, List.modifyHead_cons] at h
            have htail : [] ∈ ((d :: s).splitOn c).tail := by
              rw [List.splitOn_cons_eq_if_modifyHead, if_neg (by simpa using hd), hs, List.modifyHead_cons]
              simpa using h
            exact (ih htail).trans (List.suffix_cons c _).isInfix
    next hc =>
      cases hs : s.splitOn x with
      | nil => exact absurd hs (List.splitOn_ne_nil x s)
      | cons q qs =>
        rw [hs, List.modifyHead_cons] at h
        have htail : [] ∈ (s.splitOn x).tail := by
          rw [hs]
          exact h
        exact (ih htail).trans (List.suffix_cons c _).isInfix

/-- A path with one slash before each component, none of them a dot segment, and no
slash at its end. -/
structure Clean (path : PyStr) : Prop where
  absolute : [slash] <+: path
  no_doubled : ¬ [slash, slash] <:+: path
  no_dots : ∀ p ∈ path.splitOn slash, p ≠ [dot] ∧ p ≠ [dot, dot]
  no_trailing : ¬ [slash] <:+ path

theorem foldl_normalize {comps kept : List PyStr} (h : ∀ p ∈ comps, p ≠ [] ∧ p ≠ [dot] ∧ p ≠ [dot, dot]) :
    comps.foldl (normalize true) kept = kept ++ comps := by
  induction comps generalizing kept with
  | nil => simp
  | cons p comps ih =>
    obtain ⟨hne, hdot, hdots⟩ := h p (by simp)
    have hstep : normalize true kept p = kept ++ [p] := by
      simp only [normalize, hne, hdot, or_self, if_false, if_pos (Or.inl hdots)]
    rw [List.foldl_cons, hstep, ih fun q hq => h q (List.mem_cons_of_mem _ hq)]
    simp

/-- Such a path is its own normal form. -/
theorem Clean.normpath {path : PyStr} (h : Clean path) : PyUrl.normpath path = path := by
  obtain ⟨rest, rfl⟩ := h.absolute
  have hsplit : ([slash] ++ rest).splitOn slash = [] :: rest.splitOn slash := by
    rw [List.singleton_append, List.splitOn_cons_eq_if_modifyHead, if_pos (beq_self_eq_true slash)]
  have hone : initialSlashes ([slash] ++ rest) = 1 := by
    have hnot : ¬ [slash, slash] <+: [slash] ++ rest := fun hp => h.no_doubled hp.isInfix
    rw [initialSlashes, if_neg fun hp => hnot hp.1, if_pos (List.prefix_append _ _)]
  have hcomps : ∀ p ∈ rest.splitOn slash, p ≠ [] ∧ p ≠ [dot] ∧ p ≠ [dot, dot] := by
    intro p hp
    refine ⟨?_, h.no_dots p (hsplit ▸ List.mem_cons_of_mem _ hp)⟩
    rintro rfl
    have htail : [] ∈ (([slash] ++ rest).splitOn slash).tail := by
      rw [hsplit]
      exact hp
    rcases List.infix_concat_iff.mp (doubled_of_empty htail) with hsuffix | hinner
    · -- the doubled slash would be the last one of the path and the one put behind it
      obtain ⟨t, ht⟩ := hsuffix
      rw [show t ++ [slash, slash] = (t ++ [slash]) ++ [slash] by simp] at ht
      exact h.no_trailing ⟨t, (List.append_inj' ht rfl).1⟩
    · exact h.no_doubled hinner
  have hfold : (([slash] ++ rest).splitOn slash).foldl (normalize true) [] = rest.splitOn slash := by
    rw [hsplit, List.foldl_cons, foldl_normalize hcomps]
    rfl
  simp only [PyUrl.normpath, hone, Nat.lt_one_iff, decide_true]
  rw [hfold, List.intercalate_splitOn]
  simp

theorem mem_foldl_normalize {absolute : Bool} {comps kept : List PyStr} {p : PyStr}
    (h : p ∈ comps.foldl (normalize absolute) kept) : p ∈ kept ∨ (p ∈ comps ∧ p ≠ []) := by
  induction comps generalizing kept with
  | nil => exact Or.inl h
  | cons q comps ih =>
    rw [List.foldl_cons] at h
    rcases ih h with hk | ⟨hp, hne⟩
    · unfold normalize at hk
      split_ifs at hk with hskip
      · exact Or.inl hk
      · rcases List.mem_append.mp hk with hk | hk
        · exact Or.inl hk
        · rw [List.mem_singleton.mp hk]
          exact Or.inr ⟨by simp, fun hq => hskip (Or.inl hq)⟩
      · exact Or.inl (List.mem_of_mem_dropLast hk)
    · exact Or.inr ⟨List.mem_cons_of_mem _ hp, hne⟩

/-- Only an absolute path has an absolute normal form. -/
theorem absolute_of_normpath {path : PyStr} (h : [slash] <+: PyUrl.normpath path) : [slash] <+: path := by
  by_contra hrel
  have hzero : initialSlashes path = 0 := by
    have hnot : ¬ [slash, slash] <+: path := fun hp => hrel ((List.prefix_append [slash] [slash]).trans hp)
    rw [initialSlashes, if_neg fun hp => hnot hp.1, if_neg hrel]
  unfold PyUrl.normpath at h
  split at h
  · simp [slash, dot] at h
  · rw [hzero] at h
    simp only [lt_self_iff_false, decide_false, List.replicate_zero, List.nil_append] at h
    cases hcomps : (path.splitOn slash).foldl (normalize false) [] with
    | nil =>
      rw [hcomps] at h
      simp [slash, dot] at h
    | cons p ps =>
      have hp : p ∈ (path.splitOn slash).foldl (normalize false) [] := by
        rw [hcomps]
        exact List.mem_cons_self
      obtain hp | ⟨hp, hne⟩ := mem_foldl_normalize hp
      · cases hp
      -- the first component kept has a first character, and it is no slash
      cases p with
      | nil => exact hne rfl
      | cons c p =>
        have hc := (splitOn_chars path _ hp c List.mem_cons_self).2
        rw [hcomps] at h
        cases ps with
        | nil => simp [hc.symm] at h
        | cons q ps => simp [hc.symm] at h

end AgentWorkflow.Lib.PyUrl
