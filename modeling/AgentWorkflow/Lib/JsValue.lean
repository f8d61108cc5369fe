import AgentWorkflow.Lib.Decimal
import AgentWorkflow.Lib.JsText

/-!
# Values of JavaScript programs

What `JSON.parse` builds of a document: strings of UTF-16 code units, numbers of
binary64, objects with the members in the order of creation.
-/

namespace AgentWorkflow.Lib.Js
open JsonText

universe u

abbrev Str := List UInt16

/-- A string literal -/
def str (s : String) : Str := s.toList.flatMap fun c => JsText.utf16 c.toNat

structure Number where
  negative : Bool
  word : ℕ
deriving DecidableEq

inductive Value
  | null
  | bool (b : Bool)
  | num (n : Number)
  | str (s : Str)
  | arr (items : List Value)
  | obj (members : List (Str × Value))

/-- An assignment to a member. -/
def assign (k : Str) (v : Value) : List (Str × Value) → List (Str × Value)
  | [] => [(k, v)]
  | e :: l => if e.1 = k then (k, v) :: l else e :: assign k v l

/-- The own property; `none` is `undefined`. -/
def Value.get (k : Str) : Value → Option Value
  | .obj members => (members.find? fun e => decide (e.1 = k)).map Prod.snd
  | _ => none

/-- `typeof v === 'object'` and not `null` -/
def Value.isObject : Value → Bool
  | .arr _ | .obj _ => true
  | _ => false

def truthy : Option Value → Bool
  | none | some .null => false
  | some (.bool b) => b
  | some (.num n) => decide (n.word ≠ 0)
  | some (.str s) => decide (s ≠ [])
  | some (.arr _) | some (.obj _) => true

def asString : Option Value → Option Str
  | some (.str s) => some s
  | _ => none

def asNumber : Option Value → Option Number
  | some (.num n) => some n
  | _ => none

section Parse
variable {α : Type u} (code : α → ℕ)

def hexValue (n : ℕ) : ℕ := if n ≤ 0x39 then n - 0x30 else if n ≤ 0x46 then n - 0x37 else n - 0x57

/-- What a short escape stands for. -/
def shortValue (n : ℕ) : ℕ :=
  if n = 0x62 then 0x08
  else if n = 0x66 then 0x0C
  else if n = 0x6E then 0x0A
  else if n = 0x72 then 0x0D
  else if n = 0x74 then 0x09
  else n

/-- The string between the quotes. -/
def unescape : List α → Str
  | [] => []
  | c :: t =>
    if code c = 0x5C then
      match t with
      | [] => []
      | e :: t =>
        if code e = 0x75 then
          match t with
          | h₁ :: h₂ :: h₃ :: h₄ :: t =>
            UInt16.ofNat (hexValue (code h₁) * 0x1000 + hexValue (code h₂) * 0x100 + hexValue (code h₃) * 16 +
              hexValue (code h₄)) :: unescape t
          | _ => []
        else UInt16.ofNat (shortValue (code e)) :: unescape t
    else JsText.utf16 (code c) ++ unescape t

def Number.ofNumeral (n : Numeral α) : Number :=
  ⟨decide (n.sign ≠ []), (Binary64.ofRat (Decimal.magnitude code n)).getD Binary64.infinity⟩

mutual
def Value.ofDoc : Doc α → Value
  | .null => .null
  | .bool b => .bool b
  | .num n => .num (.ofNumeral code n)
  | .str body => .str (unescape code body)
  | .arr items => .arr (ofItems items)
  | .obj members => .obj (ofMembers [] members)

def Value.ofItems : List (Doc α) → List Value
  | [] => []
  | d :: ds => ofDoc d :: ofItems ds

def Value.ofMembers (made : List (Str × Value)) : List (List α × Doc α) → List (Str × Value)
  | [] => made
  | (k, d) :: ms => ofMembers (assign (unescape code k) (ofDoc d) made) ms
end

/-- `JSON.parse` -/
def parse (t : List α) : Option Value := (JsonText.parse code t).map (Value.ofDoc code)

end Parse

end AgentWorkflow.Lib.Js
