import AgentWorkflow.Lib.Texts

/-!
# JSON values as Python holds them

Numbers keep Python's distinction between `int` and `float`; strings are lists
of the character type `χ`, so that one reader can take Unicode scalar values
and another any code point. Dictionaries are association lists with distinct
keys. A finite float is the rational number it denotes.
-/

namespace AgentWorkflow.Lib

inductive PyFloat where
  | finite (q : ℚ)
  | inf
  | ninf
  | nan
deriving DecidableEq

namespace PyFloat

/-- `x == y` on floats: `nan` differs from everything, itself included. -/
def eq : PyFloat → PyFloat → Bool
  | finite p, finite q => decide (p = q)
  | inf, inf => true
  | ninf, ninf => true
  | _, _ => false

def isfinite : PyFloat → Bool
  | finite _ => true
  | _ => false

/-- `x < y` on floats. -/
def lt : PyFloat → PyFloat → Bool
  | nan, _ => false
  | _, nan => false
  | finite p, finite q => decide (p < q)
  | ninf, ninf => false
  | ninf, _ => true
  | _, inf => true
  | _, _ => false

/-- The integer nearest to `n` with a 53-bit significand, ties to even. -/
def roundNat (n : ℕ) : ℕ :=
  if n < 2 ^ 53 then n
  else
    let e := Nat.log2 n - 52
    let q := n / 2 ^ e
    let r := n % 2 ^ e
    (if 2 ^ (e - 1) < r ∨ r = 2 ^ (e - 1) ∧ q % 2 = 1 then q + 1 else q) * 2 ^ e

/-- `float(n)`; `none` is the `OverflowError`. -/
@[irreducible] def ofInt (n : ℤ) : Option ℚ :=
  let m := roundNat n.natAbs
  if 2 ^ 1024 ≤ m then none else some (if n < 0 then -m else m)

end PyFloat

inductive Json (χ : Type) where
  | null
  | bool (b : Bool)
  | int (n : ℤ)
  | float (x : PyFloat)
  | str (s : List χ)
  | arr (l : List (Json χ))
  | obj (l : List (List χ × Json χ))

namespace Json
variable {χ : Type} [DecidableEq χ]

/-- The number a value stands for in comparisons; booleans are integers. -/
def number : Json χ → Option PyFloat
  | bool b => some (.finite (if b then 1 else 0))
  | int n => some (.finite n)
  | float x => some x
  | _ => none

def get (k : List χ) : List (List χ × Json χ) → Option (Json χ)
  | [] => none
  | (k', v) :: l => if k' = k then some v else get k l

mutual
/-- Python's `==`: numbers by value across the three numeric types, lists in
order, dictionaries as maps. -/
def eq : Json χ → Json χ → Bool
  | null, null => true
  | str s, str t => decide (s = t)
  | arr l, arr m => eqList l m
  | obj l, obj m => decide (l.length = m.length) && eqObj l m
  | x, y =>
    match number x, number y with
    | some p, some q => p.eq q
    | _, _ => false

def eqList : List (Json χ) → List (Json χ) → Bool
  | [], [] => true
  | x :: l, y :: m => eq x y && eqList l m
  | _, _ => false

def eqObj : List (List χ × Json χ) → List (List χ × Json χ) → Bool
  | [], _ => true
  | (k, x) :: l, m =>
    (match get k m with
      | some y => eq x y
      | none => false) && eqObj l m
end

end Json

end AgentWorkflow.Lib
