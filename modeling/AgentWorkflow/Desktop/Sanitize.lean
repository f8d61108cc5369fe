import AgentWorkflow.Lib.JsRegex
import AgentWorkflow.Lib.JsValue

/-!
# Errors shown to the user (`utils/sanitize.ts`)

The text of an error is taken from what was thrown, reduced to one line, and rewritten by
the path patterns and then by the patterns for secrets.
-/

namespace AgentWorkflow.Desktop.Sanitize
open AgentWorkflow.Lib AgentWorkflow.Lib.Js AgentWorkflow.Lib.JsRegex

def unit (c : UInt16) : Pattern := .one fun d => decide (d = c)
def anyOf (l : List UInt16) : Pattern := .one fun d => decide (d ∈ l)

/-- A word in any case, -/
def caseless (word : String) : Pattern := literal letter (str word)

/-- and as it is written. -/
def exactly (word : String) : Pattern := literal unit (str word)

def atMost (p : UInt16 → Bool) : ℕ → Pattern
  | 0 => .chars (fun _ => false) 0
  | n + 1 => .opt (.seq (.one p) (atMost p n))

def isLetter (c : UInt16) : Bool := decide (0x41 ≤ c ∧ c ≤ 0x5A) || decide (0x61 ≤ c ∧ c ≤ 0x7A)
def isDigit (c : UInt16) : Bool := decide (0x30 ≤ c ∧ c ≤ 0x39)
def isHex (c : UInt16) : Bool := isDigit c || decide (0x41 ≤ c ∧ c ≤ 0x46) || decide (0x61 ≤ c ∧ c ≤ 0x66)

/-! ### Patterns -/

/-- `[\w.\-@+]` -/
def pathUnit (c : UInt16) : Bool := isWord c || decide (c ∈ str ".-@+")

/-- `[\w .\-@+]` -/
def spacedUnit (c : UInt16) : Bool := pathUnit c || decide (c = 0x20)

/-- `[\w.\-]` -/
def shareUnit (c : UInt16) : Bool := isWord c || decide (c ∈ str ".-")

/-- `[A-Za-z0-9_-]` -/
def segmentUnit (c : UInt16) : Bool := isWord c || decide (c = 0x2D)

/-- `[A-Za-z0-9._\-+/=]` -/
def bearerUnit (c : UInt16) : Bool := isWord c || decide (c ∈ str ".-+/=")

/-- `[^"'\s,;}]` -/
def valueUnit (c : UInt16) : Bool := !(isBlank c || decide (c ∈ [0x22, 0x27, 0x2C, 0x3B, 0x7D]))

def separator : Pattern := anyOf [0x5C, 0x2F]
def posixGroup : Pattern := .seq (.chars pathUnit 1) (unit 0x2F)
def POSIX_PATH_RE : Pattern := .seq (unit 0x2F) (.seq posixGroup (.seq (.star posixGroup) (.chars pathUnit 0)))
def winGroup : Pattern := .seq (.chars spacedUnit 1) separator
def drivePath : Pattern :=
  .seq (.one isLetter) (.seq (unit 0x3A) (.seq separator (.seq winGroup (.seq (.star winGroup) (.chars spacedUnit 0)))))
def uncGroup : Pattern := .seq (unit 0x5C) (.chars spacedUnit 0)
def uncPath : Pattern :=
  .seq (unit 0x5C) (.seq (unit 0x5C) (.seq (.chars shareUnit 1) (.seq (unit 0x5C) (.seq (.chars shareUnit 1) (.star uncGroup)))))
def WIN_PATH_RE : Pattern := .alt drivePath uncPath

/-- A segment of eight units or more. -/
def segment : Pattern := .chars segmentUnit 8
def JWT_RE : Pattern :=
  .seq .boundary (.seq segment (.seq (unit 0x2E) (.seq segment (.seq (unit 0x2E) (.seq segment .boundary)))))
def HEX_TOKEN_RE : Pattern := .seq .boundary (.seq (.chars isHex 24) .boundary)
def BEARER_RE : Pattern := .seq .boundary (.seq (caseless "bearer") (.seq (.chars isBlank 1) (.chars bearerUnit 1)))
def secretName : Pattern :=
  .alt (.seq (caseless "api") (.seq (.opt (anyOf [0x5F, 0x2D])) (caseless "key"))) <|
  .alt (caseless "token") <| .alt (caseless "password") <| .alt (caseless "secret") <|
  .alt (caseless "passwd") (caseless "pwd")
def assigner : Pattern := anyOf [0x3A, 0x3D]
def quote : Pattern := .opt (anyOf [0x22, 0x27])
def KV_SECRET_RE : Pattern :=
  .seq .boundary <| .seq secretName <| .seq (.chars isBlank 0) <| .seq assigner <| .seq (.chars isBlank 0) <| .seq quote <|
    .seq (.chars valueUnit 1) quote

/-! ### The cleaners -/

/-- The last of the pieces between `/` and `\`. -/
def lastSegment (m : Str) : Str := m.rtakeWhile fun c => decide (c ≠ 0x2F ∧ c ≠ 0x5C)

def fileName (last : Str) : Bool :=
  testStart (.seq (.chars pathUnit 1) (.seq (unit 0x2E) (.seq (.one fun c => isLetter c || isDigit c)
    (.seq (atMost (fun c => isLetter c || isDigit c) 5) .stop)))) last

def replacePath (m : Str) : Str :=
  if lastSegment m ≠ [] ∧ fileName (lastSegment m) = true then str "<path>/" ++ lastSegment m else str "<path>"

def stripPaths (input : Str) : Str := replaceAll POSIX_PATH_RE replacePath (replaceAll WIN_PATH_RE replacePath input)

/-- The first of the pieces between `:` and `=`. -/
def secretKey (m : Str) : Str := m.takeWhile fun c => decide (c ≠ 0x3A ∧ c ≠ 0x3D)

def redactSecrets (input : Str) : Str :=
  replaceAll HEX_TOKEN_RE (fun _ => str "<token>") <|
    replaceAll KV_SECRET_RE (fun m => secretKey m ++ str "=<redacted>") <|
      replaceAll JWT_RE (fun _ => str "<jwt>") <|
        replaceAll BEARER_RE (fun _ => str "Bearer <redacted>") input

def trim (s : Str) : Str := JsText.trim UInt16.toNat s

/-- A line ends at `\r?\n`. -/
def dropReturn (line : Str) : Str := if line.getLast? = some 0x0D then line.dropLast else line

def splitLines (input : Str) : List Str :=
  (JsText.lines 0x0A input).map dropReturn ++ [JsText.remainder 0x0A input]

def tracebackLine (ln : Str) : Bool := testStart (.seq (caseless "traceback") .boundary) ln
def fileLine (ln : Str) : Bool := testStart (.seq (exactly "File") (.seq (.chars isBlank 1) (anyOf [0x22, 0x27]))) ln
def atLine (ln : Str) : Bool := testStart (.seq (exactly "at") (.chars isBlank 1)) ln

/-- `[A-Za-z_][\w.]*` -/
def dottedName : Pattern :=
  .seq (.one fun c => isLetter c || decide (c = 0x5F)) (.chars (fun c => isWord c || decide (c = 0x2E)) 0)
def errorLine (ln : Str) : Bool :=
  testStart (.seq dottedName (.seq (.alt (exactly "Error") (.alt (exactly "Exception") (.alt (exactly "Warning") (exactly "Abort"))))
    .boundary)) ln
def namedLine (ln : Str) : Bool :=
  testStart (.seq dottedName (.seq (.chars isBlank 0) (.seq (unit 0x3A) (.seq (.chars isBlank 0)
    (.chars (fun c => decide (c ∉ [0x0A, 0x0D, 0x2028, 0x2029])) 1))))) ln

/-- The one line that stays. -/
def keptLine (input : Str) : Str :=
  match ((splitLines input).map trim).filter (fun l => decide (0 < l.length)) with
  | [] => []
  | first :: later =>
    if tracebackLine first then
      -- From the last line back; the last one where none will do.
      ((first :: later).reverse.find? fun ln => !fileLine ln && !tracebackLine ln && (errorLine ln || namedLine ln)).getD
        ((first :: later).getLast (by simp))
    else ((first :: later).find? fun ln => !atLine ln && !fileLine ln).getD first

def clamp (s : Str) (max : ℕ) : Str := if s.length ≤ max then s else s.take (max - 1) ++ [0x2026]

def collapseStack (input : Str) : Str := clamp (keptLine input) 280

/-! ### What is thrown -/

/-- The properties of a thrown object that are read, and `JSON.stringify` and `String` of it. -/
structure ErrorObject where
  /-- `String(status)`, where it is a number -/
  status : Option Str := none
  code : Option Str := none
  error_type : Option Str := none
  detail : Option Str := none
  message : Option Str := none
  error : Option Str := none
  title : Option Str := none
  /-- No value where `JSON.stringify` throws; it may give `undefined`. -/
  json : Option (Option Str) := some none
  text : Str := []

inductive Err
  | nullish
  | string (s : Str)
  /-- a number or a boolean, by its `String` -/
  | plain (s : Str)
  | object (o : ErrorObject)

structure RawError where
  message : Option Str
  code : Option Str := none
  title : Option Str := none

/-- A string that counts as true. -/
def truthy (s : Option Str) : Option Str := s.filter fun s => decide (s ≠ [])

def extractRaw (t : Str → Str) : Err → RawError
  | .nullish => { message := some (t (str "api.unknownError")) }
  | .string s | .plain s => { message := some s }
  | .object o =>
    { message := ((truthy o.detail).or ((truthy o.message).or (truthy o.error))).or
        (match o.json with
          | some written => written
          | none => some o.text)
      code := (truthy o.code).or ((truthy o.error_type).or o.status)
      title := o.title }

structure SanitizedError where
  title : Str
  message : Str
  code : Option Str

/-- The message without its fallback: collapse, strip, redact, trim. -/
def cleaned (message : Str) : Str := trim (redactSecrets (stripPaths (collapseStack message)))

def sanitizeError (t : Str → Str) (err : Err) (fallbackTitle : Option Str) : SanitizedError :=
  let fallback := fallbackTitle.getD (t (str "api.operationFailed"))
  let raw := extractRaw t err
  let message := cleaned (raw.message.getD [])
  let message := if message = [] then fallback else message
  { title := raw.title.getD fallback
    message := if 280 < message.length then message.take 277 ++ [0x2026] else message
    code := truthy raw.code }

end AgentWorkflow.Desktop.Sanitize
