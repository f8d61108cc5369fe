import AgentWorkflow.Lib.GoLiteral
import AgentWorkflow.Lib.JsonDoc
import AgentWorkflow.Lib.OrderedDict
import AgentWorkflow.VmAgent.QueueingSink

/-!
# `json.Marshal` and `json.Unmarshal`

`Unmarshal` into `any` and into `map[string]any`: every number becomes a `float64`, and
of two members with one key the later one is kept. `Marshal` sorts the keys of a map.
Decoding a document and encoding it again gives the same value exactly when every
number is written back as it was and members that share a key share their value.
-/

namespace AgentWorkflow.VmAgent
open AgentWorkflow.Lib AgentWorkflow.Lib.JsonText

/-! ### Floats -/

def isNegative (bits : UInt64) : Bool := decide (2 ^ 63 ≤ bits.toNat)

/-- The bits without the sign. -/
def floatWord (bits : UInt64) : ℕ := bits.toNat % 2 ^ 63

def floatBits (negative : Bool) (w : ℕ) : UInt64 := UInt64.ofNat (if negative then 2 ^ 63 + w else w)

/-! ### `json.Marshal` -/

section Keys
variable {β : Type}

def sortKeys (l : List (Bytes × β)) : List (Bytes × β) := l.insertionSort fun p q => p.1 ≤ q.1

def quoteKeys (l : List (Bytes × β)) : List (Bytes × β) := l.map fun p => (GoJson.quote p.1, p.2)

end Keys

/-- `none` for a NaN or an infinity. -/
def encodeFloat (bits : UInt64) : Option (Doc UInt8) :=
  if floatWord bits < Binary64.infinity then some (.num (GoJson.floatNumeral (isNegative bits) (floatWord bits)))
  else none

mutual
def GoValue.encode : GoValue → Option (Doc UInt8)
  | .nil => some .null
  | .bool b => some (.bool b)
  | .string s => some (.str (GoJson.quote s))
  | .int n => some (.num (Decimal.integer UInt8.ofNat n))
  | .float64 bits => encodeFloat bits
  | .slice xs => (encodeItems xs).map .arr
  | .map entries => (encodeEntries entries).map fun m => .obj (quoteKeys (sortKeys m))
  | .struct fields => (encodeEntries fields).map fun m => .obj (quoteKeys m)
  | .other => none

def GoValue.encodeItems : List GoValue → Option (List (Doc UInt8))
  | [] => some []
  | v :: l => v.encode.bind fun d => (encodeItems l).map (d :: ·)

def GoValue.encodeEntries : List (Bytes × GoValue) → Option (List (Bytes × Doc UInt8))
  | [] => some []
  | (k, v) :: l => v.encode.bind fun d => (encodeEntries l).map ((k, d) :: ·)
end

def marshal (v : GoValue) : Option Bytes := v.encode.map fun d => d.print UInt8.ofNat []

/-! ### `json.Unmarshal` -/

/-- `none` is the error of a number that is out of range. -/
def decodeNumber (n : Numeral UInt8) : Option GoValue :=
  (Binary64.ofRat (Decimal.magnitude UInt8.toNat n)).map fun w => .float64 (floatBits (decide (n.sign ≠ [])) w)

/-- Stores one member after the other. -/
def goMap (l : List (Bytes × GoValue)) : List (Bytes × GoValue) := l.foldl (fun m e => OrderedDict.put e.1 e.2 m) []

mutual
/-- Into an `any`. -/
def decodeAny : Doc UInt8 → Option GoValue
  | .null => some .nil
  | .bool b => some (.bool b)
  | .num n => decodeNumber n
  | .str body => some (.string (GoJson.unquote body))
  | .arr l => (decodeItems l).map .slice
  | .obj l => (decodeMembers l).map fun m => .map (goMap m)

def decodeItems : List (Doc UInt8) → Option (List GoValue)
  | [] => some []
  | d :: l => (decodeAny d).bind fun v => (decodeItems l).map (v :: ·)

def decodeMembers : List (Bytes × Doc UInt8) → Option (List (Bytes × GoValue))
  | [] => some []
  | (k, d) :: l => (decodeAny d).bind fun v => (decodeMembers l).map ((GoJson.unquote k, v) :: ·)
end

def maxNestingDepth : ℕ := 10000

/-- `checkValid`, and what the text says. -/
def parseJson (raw : Bytes) : Option (Doc UInt8) :=
  (parse UInt8.toNat raw).bind fun d => if maxNestingDepth < d.depth then none else some d

/-- Into a `map[string]any`; `some none` is the nil map that `null` leaves. -/
def unmarshalMap (raw : Bytes) : Option (Option (List (Bytes × GoValue))) :=
  match parseJson raw with
  | some .null => some none
  | some (.obj members) => (decodeMembers members).map fun m => some (goMap m)
  | _ => none

/-! ### One pass -/

abbrev SameDoc (d e : Doc UInt8) : Prop := d.Same GoJson.unquote (Decimal.exactValue UInt8.toNat) e

abbrev SameMembers (skip : Bytes → Prop) (l m : List (Bytes × Doc UInt8)) : Prop :=
  Doc.SameMembers GoJson.unquote (Decimal.exactValue UInt8.toNat) skip l m

/-- Members that share a key share the value. -/
abbrev Agree (skip : Bytes → Prop) (l : List (Bytes × Doc UInt8)) : Prop :=
  Doc.Agree GoJson.unquote (Decimal.exactValue UInt8.toNat) skip l

/-- The shortest text of the nearest `float64` denotes the number itself. -/
def Lasting (n : Numeral UInt8) : Prop :=
  ∃ w, Binary64.ofRat |Decimal.exactValue UInt8.toNat n| = some w ∧
    Binary64.decimal (Binary64.shortest w).1 (Binary64.shortest w).2 = |Decimal.exactValue UInt8.toNat n|

/-- Every number lasts, and no object has two values for a key. -/
abbrev PlainDoc (d : Doc UInt8) : Prop := d.Plain GoJson.unquote (Decimal.exactValue UInt8.toNat) Lasting

/-! ### Numbers -/

theorem toNat_floatBits {negative : Bool} {w : ℕ} (h : w < 2 ^ 63) :
    (floatBits negative w).toNat = if negative then 2 ^ 63 + w else w := by
  unfold floatBits
  rw [UInt64.toNat_ofNat']
  apply Nat.mod_eq_of_lt
  split <;> omega

theorem floatWord_floatBits (negative : Bool) {w : ℕ} (h : w < 2 ^ 63) : floatWord (floatBits negative w) = w := by
  rw [floatWord, toNat_floatBits h]
  split <;> omega

theorem isNegative_floatBits (negative : Bool) {w : ℕ} (h : w < 2 ^ 63) :
    isNegative (floatBits negative w) = negative := by
  rw [isNegative, toNat_floatBits h]
  cases negative with
  | false => simpa using h
  | true => simp

theorem lt_of_finite {w : ℕ} (h : w < Binary64.infinity) : w < 2 ^ 63 := by
  have hinf : Binary64.infinity ≤ 2 ^ 63 := by decide
  omega

theorem encodeFloat_floatBits (negative : Bool) {w : ℕ} (h : w < Binary64.infinity) :
    encodeFloat (floatBits negative w) = some (.num (GoJson.floatNumeral negative w)) := by
  have hlt := lt_of_finite h
  rw [encodeFloat, floatWord_floatBits negative hlt, isNegative_floatBits negative hlt, if_pos h]

theorem exactValue_floatNumeral (negative : Bool) (w : ℕ) :
    Decimal.exactValue UInt8.toNat (GoJson.floatNumeral negative w) =
      if negative then -Binary64.decimal (Binary64.shortest w).1 (Binary64.shortest w).2
      else Binary64.decimal (Binary64.shortest w).1 (Binary64.shortest w).2 :=
  Decimal.exactValue_writeWord GoJson.ascii_ofNat _ negative w

/-- A number read and written again. -/
theorem number_pass {n : Numeral UInt8} {g : GoValue} (h : decodeNumber n = some g) :
    ∃ m, g.encode = some (.num m) ∧ m.Ok UInt8.toNat ∧
      (Decimal.exactValue UInt8.toNat n = Decimal.exactValue UInt8.toNat m ↔ Lasting n) := by
  obtain ⟨w, hw, rfl⟩ := Option.map_eq_some_iff.mp h
  have hlt := Binary64.ofRat_lt hw
  refine ⟨GoJson.floatNumeral (decide (n.sign ≠ [])) w, encodeFloat_floatBits _ hlt, GoJson.floatNumeral_ok _ w, ?_⟩
  have habs : |Decimal.exactValue UInt8.toNat n| = Decimal.magnitude UInt8.toNat n := Decimal.abs_exactValue n
  have hlasting : Lasting n ↔
      Binary64.decimal (Binary64.shortest w).1 (Binary64.shortest w).2 = Decimal.magnitude UInt8.toNat n := by
    unfold Lasting
    rw [habs, hw]
    exact ⟨fun ⟨v, hv, h⟩ => by cases hv; exact h, fun h => ⟨w, rfl, h⟩⟩
  rw [hlasting, exactValue_floatNumeral, Decimal.exactValue]
  by_cases hsign : n.sign = []
  · simp only [hsign, if_true, ne_eq, not_true_eq_false, decide_false, Bool.false_eq_true, if_false]
    exact eq_comm
  · simp only [hsign, if_false, ne_eq, not_false_eq_true, decide_true, if_true, neg_inj]
    exact eq_comm

end AgentWorkflow.VmAgent
