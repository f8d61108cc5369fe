import AgentWorkflow.Lib.JsValue

/-!
# Conversions of JavaScript strings

`Number(value)` of a string, and `toLowerCase` as far as ASCII results go.
-/

namespace AgentWorkflow.Lib.Js
open JsonText

/-! ### Numbers -/

/-- The base that the letter after a zero announces. -/
def radix (c : UInt16) : Option ℕ :=
  if c = 0x78 ∨ c = 0x58 then some 16
  else if c = 0x6F ∨ c = 0x4F then some 8
  else if c = 0x62 ∨ c = 0x42 then some 2
  else none

def digitOf (base : ℕ) (c : UInt16) : Option ℕ :=
  if isHex UInt16.toNat c && decide (hexValue c.toNat < base) then some (hexValue c.toNat) else none

/-- The digits after the point, with the point. -/
def scanPoint : Str → Str × Str
  | [] => ([], [])
  | c :: t =>
    if c = 0x2E then (c :: t.takeWhile (isDigit UInt16.toNat), t.dropWhile (isDigit UInt16.toNat)) else ([], c :: t)

/-- `StrDecimalLiteral`; `none` is NaN. -/
def decimalLiteral (t : Str) : Option Number :=
  let sign := scanOptional UInt16.toNat [0x2B, 0x2D] t
  let minus := sign.1.filter fun c => decide (c = 0x2D)
  if sign.2 = str "Infinity" then some ⟨decide (minus ≠ []), Binary64.infinity⟩
  else
    let int := sign.2.takeWhile (isDigit UInt16.toNat)
    let frac := scanPoint (sign.2.dropWhile (isDigit UInt16.toNat))
    if int = [] ∧ frac.1.drop 1 = [] then none
    else match scanExp UInt16.toNat frac.2 with
      | some (exp, []) => some (.ofNumeral UInt16.toNat ⟨minus, int, frac.1, exp⟩)
      | _ => none

/-- `Number(value)` -/
def toNumber (value : Str) : Option Number :=
  match JsText.trim UInt16.toNat value with
  | [] => some ⟨false, 0⟩
  | [c] => decimalLiteral [c]
  | z :: c :: t =>
    match (if z = 0x30 then radix c else none) with
    | none => decimalLiteral (z :: c :: t)
    | some base =>
      if t = [] then none
      else (t.mapM (digitOf base)).map fun ds => ⟨false, (Binary64.ofRat (Nat.ofDigits base ds.reverse)).getD Binary64.infinity⟩

example : toNumber (str " 0x16 ") = toNumber (str "22.0") := by decide +kernel

/-- The integer that the number is, if it is one. -/
def Number.toInteger (n : Number) : Option ℤ :=
  let q := Binary64.toRat n.word
  if decide (Binary64.infinity ≤ n.word) || decide (q.den ≠ 1) then none else some (if n.negative then -q.num else q.num)

/-! ### Lower case -/

/-- Beyond ASCII only the Kelvin sign and the dotted capital I have ASCII in their lower
case. The other letters are left as they are: no test for ASCII can tell. -/
def lowerUnit (c : UInt16) : Str :=
  if 0x41 ≤ c ∧ c ≤ 0x5A then [c + 0x20]
  else if c = 0x212A then [0x6B]
  else if c = 0x130 then [0x69, 0x307]
  else [c]

def toLowerCase (s : Str) : Str := s.flatMap lowerUnit

end AgentWorkflow.Lib.Js
