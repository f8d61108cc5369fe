import AgentWorkflow.Lib.Decimal
import AgentWorkflow.Lib.PyJson

/-!
# Strings and numbers as Python's `json` module writes them

Strings with `ensure_ascii`: every character outside printable ASCII is an escape, those
above U+FFFF a pair of two. Strings hold Unicode scalar values: an escape that is half of
such a pair is read as U+FFFD. A float is written as its `repr`.
-/

namespace AgentWorkflow.Lib.PythonJson
open JsonText

/-! ### Strings -/

def hexDigit (n : ℕ) : Char := Char.ofNat (if n < 10 then 0x30 + n else 0x57 + n)

def hexValue (c : Char) : ℕ :=
  if c.toNat ≤ 0x39 then c.toNat - 0x30 else if c.toNat ≤ 0x46 then c.toNat - 0x37 else c.toNat - 0x57

def unicodeEscape (n : ℕ) : List Char :=
  ['\\', 'u', hexDigit (n / 0x1000 % 16), hexDigit (n / 0x100 % 16), hexDigit (n / 16 % 16), hexDigit (n % 16)]

/-- The UTF-16 code units of a code point. -/
def utf16 (n : ℕ) : List ℕ :=
  if n < 0x10000 then [n] else [0xD800 + (n - 0x10000) / 0x400, 0xDC00 + (n - 0x10000) % 0x400]

/-- The letter after the backslash of a short escape. -/
def shortEscape (n : ℕ) : Option Char :=
  if n = 0x22 then some '"'
  else if n = 0x5C then some '\\'
  else if n = 0x0A then some 'n'
  else if n = 0x0D then some 'r'
  else if n = 0x09 then some 't'
  else if n = 0x0C then some 'f'
  else if n = 0x08 then some 'b'
  else none

def escapeChar (c : Char) : List Char :=
  match shortEscape c.toNat with
  | some e => ['\\', e]
  | none => if 0x20 ≤ c.toNat ∧ c.toNat ≤ 0x7E then [c] else (utf16 c.toNat).flatMap unicodeEscape

def escape (s : List Char) : List Char := s.flatMap escapeChar

/-- What a short escape stands for. -/
def shortValue (e : Char) : ℕ :=
  if e = 'n' then 0x0A
  else if e = 'r' then 0x0D
  else if e = 't' then 0x09
  else if e = 'f' then 0x0C
  else if e = 'b' then 0x08
  else e.toNat

/-- The codes of a string's text, each `\u` escape by itself. -/
def bodyCodes : List Char → List ℕ
  | [] => []
  | c :: t =>
    if c = '\\' then
      match t with
      | [] => []
      | e :: t =>
        if e = 'u' then
          match t with
          | h₁ :: h₂ :: h₃ :: h₄ :: t =>
            (hexValue h₁ * 0x1000 + hexValue h₂ * 0x100 + hexValue h₃ * 16 + hexValue h₄) :: bodyCodes t
          | _ => []
        else shortValue e :: bodyCodes t
    else c.toNat :: bodyCodes t

/-- A high and a low surrogate in a row are one code point. -/
def joinPairs : List ℕ → List ℕ
  | [] => []
  | [n] => [n]
  | h :: l :: t =>
    if (0xD800 ≤ h ∧ h < 0xDC00) ∧ 0xDC00 ≤ l ∧ l < 0xE000 then
      (0x10000 + (h - 0xD800) * 0x400 + (l - 0xDC00)) :: joinPairs t
    else h :: joinPairs (l :: t)

def scalar (n : ℕ) : Char := if n.isValidChar then Char.ofNat n else Char.ofNat 0xFFFD

def unescape (body : List Char) : List Char := (joinPairs (bodyCodes body)).map scalar

theorem hexDigit_spec {n : ℕ} (h : n < 16) : isHex Char.toNat (hexDigit n) = true ∧ hexValue (hexDigit n) = n := by
  have hall : ∀ n < 16, isHex Char.toNat (hexDigit n) = true ∧ hexValue (hexDigit n) = n := by decide
  exact hall n h

theorem bodyCodes_plain {c : Char} (h : c ≠ '\\') (t : List Char) : bodyCodes (c :: t) = c.toNat :: bodyCodes t := by
  rw [bodyCodes.eq_def]
  exact if_neg h

theorem bodyCodes_short {e : Char} (h : e ≠ 'u') (t : List Char) :
    bodyCodes ('\\' :: e :: t) = shortValue e :: bodyCodes t := by
  rw [bodyCodes.eq_def]
  simp only [if_true, if_neg h]

theorem bodyCodes_unicodeEscape {n : ℕ} (h : n < 0x10000) (t : List Char) :
    bodyCodes (unicodeEscape n ++ t) = n :: bodyCodes t := by
  have h₁ := (hexDigit_spec (n := n / 0x1000 % 16) (by omega)).2
  have h₂ := (hexDigit_spec (n := n / 0x100 % 16) (by omega)).2
  have h₃ := (hexDigit_spec (n := n / 16 % 16) (by omega)).2
  have h₄ := (hexDigit_spec (n := n % 16) (by omega)).2
  simp only [unicodeEscape, List.cons_append, List.nil_append]
  rw [bodyCodes]
  simp only [if_true, h₁, h₂, h₃, h₄]
  congr 1
  omega

theorem toNat_lt (c : Char) : c.toNat < 0x110000 := by
  have h := c.valid
  simp only [UInt32.isValidChar, Nat.isValidChar] at h
  change c.val.toNat < 0x110000
  omega

theorem toNat_not_surrogate (c : Char) : ¬ (0xD800 ≤ c.toNat ∧ c.toNat < 0xE000) := by
  have h := c.valid
  simp only [UInt32.isValidChar, Nat.isValidChar] at h
  change ¬ (0xD800 ≤ c.val.toNat ∧ c.val.toNat < 0xE000)
  omega

theorem utf16_lt {n : ℕ} (h : n < 0x110000) : ∀ u ∈ utf16 n, u < 0x10000 := by
  intro u hu
  unfold utf16 at hu
  split at hu
  · simp only [List.mem_singleton] at hu
    omega
  · simp only [List.mem_cons, List.not_mem_nil, or_false] at hu
    omega

/-- What the short escapes stand for, and that they are escapes of the grammar. -/
theorem shortEscape_spec {n : ℕ} {e : Char} (h : shortEscape n = some e) :
    e ≠ 'u' ∧ shortValue e = n ∧ isEscape Char.toNat e = true ∧ n < 0x10000 := by
  unfold shortEscape at h
  split_ifs at h with h₁ h₂ h₃ h₄ h₅ h₆ h₇
  all_goals
    cases h
    subst n
    decide

theorem bodyCodes_flatMap (us : List ℕ) (h : ∀ u ∈ us, u < 0x10000) (t : List Char) :
    bodyCodes (us.flatMap unicodeEscape ++ t) = us ++ bodyCodes t := by
  induction us with
  | nil => rfl
  | cons u us ih =>
    rw [List.flatMap_cons, List.append_assoc, bodyCodes_unicodeEscape (h u (List.mem_cons_self ..)),
      ih fun v hv => h v (List.mem_cons_of_mem _ hv)]
    rfl

theorem bodyCodes_escapeChar (c : Char) (t : List Char) :
    bodyCodes (escapeChar c ++ t) = utf16 c.toNat ++ bodyCodes t := by
  unfold escapeChar
  cases hshort : shortEscape c.toNat with
  | some e =>
    obtain ⟨hu, hvalue, -, hlt⟩ := shortEscape_spec hshort
    simp only [List.cons_append, List.nil_append, utf16, if_pos hlt]
    rw [bodyCodes_short hu, hvalue]
  | none =>
    dsimp only
    split
    · next hplain =>
      have hne : c ≠ '\\' := by
        rintro rfl
        simp [shortEscape] at hshort
      have hlt : c.toNat < 0x10000 := by omega
      simp only [List.cons_append, List.nil_append, utf16, if_pos hlt]
      exact bodyCodes_plain hne t
    · exact bodyCodes_flatMap _ (utf16_lt (toNat_lt c)) t

theorem bodyCodes_escape (s : List Char) : bodyCodes (escape s) = s.flatMap fun c => utf16 c.toNat := by
  induction s with
  | nil => rfl
  | cons c s ih =>
    unfold escape at ih ⊢
    rw [List.flatMap_cons, bodyCodes_escapeChar, ih, List.flatMap_cons]

theorem joinPairs_cons {n : ℕ} (h : ¬ (0xD800 ≤ n ∧ n < 0xDC00)) (t : List ℕ) :
    joinPairs (n :: t) = n :: joinPairs t := by
  cases t with
  | nil => rfl
  | cons l t =>
    rw [joinPairs, if_neg fun hp => h hp.1]

theorem joinPairs_utf16 (c : Char) (t : List ℕ) : joinPairs (utf16 c.toNat ++ t) = c.toNat :: joinPairs t := by
  have hlt := toNat_lt c
  have hsur := toNat_not_surrogate c
  unfold utf16
  split
  · exact joinPairs_cons (by omega) t
  · next hge =>
    simp only [List.cons_append, List.nil_append]
    rw [joinPairs, if_pos (by omega)]
    refine List.cons_eq_cons.mpr ⟨?_, rfl⟩
    omega

theorem scalar_toNat (c : Char) : scalar c.toNat = c := by
  have hvalid : c.toNat.isValidChar := c.valid
  unfold scalar
  rw [if_pos hvalid]
  exact Char.ofNat_toNat c

/-- Reading the text of a string. -/
theorem unescape_escape (s : List Char) : unescape (escape s) = s := by
  have hjoin : ∀ s : List Char, joinPairs (s.flatMap fun c => utf16 c.toNat) = s.map Char.toNat := by
    intro s
    induction s with
    | nil => rfl
    | cons c s ih => rw [List.flatMap_cons, joinPairs_utf16, ih, List.map_cons]
  unfold unescape
  rw [bodyCodes_escape, hjoin, List.map_map]
  exact (List.map_congr_left fun c _ => scalar_toNat c).trans (List.map_id s)

theorem body_unicodeEscape {n : ℕ} : Body Char.toNat (unicodeEscape n) := by
  refine .unicode rfl rfl ?_ .nil
  simp only [List.all_cons, List.all_nil, Bool.and_true, Bool.and_eq_true]
  exact ⟨(hexDigit_spec (by omega)).1, (hexDigit_spec (by omega)).1, (hexDigit_spec (by omega)).1,
    (hexDigit_spec (by omega)).1⟩

theorem body_flatMap {β : Type} {f : β → List Char} {l : List β} (h : ∀ x ∈ l, Body Char.toNat (f x)) :
    Body Char.toNat (l.flatMap f) := by
  induction l with
  | nil => exact .nil
  | cons x l ih =>
    rw [List.flatMap_cons]
    exact (h x (List.mem_cons_self ..)).append (ih fun y hy => h y (List.mem_cons_of_mem _ hy))

theorem body_escape (s : List Char) : Body Char.toNat (escape s) := by
  refine body_flatMap fun c _ => ?_
  unfold escapeChar
  cases hshort : shortEscape c.toNat with
  | some e => exact .escape rfl (shortEscape_spec hshort).2.2.1 .nil
  | none =>
    dsimp only
    split
    · next hplain =>
      refine .plain hplain.1 ?_ ?_ .nil
      · intro h
        simp [shortEscape, h] at hshort
      · intro h
        simp [shortEscape, h] at hshort
    · exact body_flatMap fun u _ => body_unicodeEscape

/-! ### Numbers -/

/-- `int` refuses to write or read more digits. -/
def maxStrDigits : ℕ := 4300

def intNumeral (n : ℤ) : Numeral Char := Decimal.integer Char.ofNat n

/-- `float.__repr__`: an exponent of at least two digits when the point is more than
sixteen places right of the first digit or four left of it. -/
def reprStyle (w : ℕ) : Decimal.Style :=
  let d := Binary64.shortest w
  let point : ℤ := (Decimal.digits Char.ofNat d.1).length + (if d.1 = 0 then 0 else d.2)
  ⟨decide (point ≤ -4 ∨ 16 < point), 2, true⟩

/-- The text of a float, which is a binary64 number. -/
def floatText (q : ℚ) (w : ℕ) : Numeral Char := Decimal.writeWord Char.ofNat (reprStyle w) (decide (q < 0)) w

/-- The float of a sign and a word; too large a number is an infinity. -/
def floatOf (sign : List Char) : Option ℕ → PyFloat
  | some w => .finite (if sign = [] then Binary64.toRat w else -Binary64.toRat w)
  | none => if sign = [] then .inf else .ninf

def readFloat (n : Numeral Char) : PyFloat := floatOf n.sign (Binary64.ofRat (Decimal.magnitude Char.toNat n))

def readInt (n : Numeral Char) : Option ℤ :=
  if maxStrDigits < n.int.length then none
  else some (if n.sign = [] then Decimal.readDigits Char.toNat n.int else -Decimal.readDigits Char.toNat n.int)

/-- A numeral with a point or an exponent is a float. -/
def readNumeral (n : Numeral Char) : Option (Json Char) :=
  if n.frac = [] ∧ n.exp = [] then (readInt n).map .int else some (.float (readFloat n))

theorem ascii_ofNat : Ascii Char.toNat Char.ofNat := by
  have hall : ∀ n < 128, (Char.ofNat n).toNat = n := by decide
  exact hall

theorem floatText_ok (q : ℚ) (w : ℕ) : (floatText q w).Ok Char.toNat := Decimal.writeWord_ok ascii_ofNat _ _ w

theorem readFloat_floatText {q : ℚ} {w : ℕ} (hw : w < Binary64.infinity) (hq : |q| = Binary64.toRat w) :
    readFloat (floatText q w) = .finite q := by
  have hread := Binary64.ofRat_shortest hw
  rw [readFloat, floatText, Decimal.magnitude_writeWord ascii_ofNat, Decimal.writeWord_sign, hread, floatOf, ← hq]
  by_cases hneg : q < 0
  · simp [hneg, Decimal.signText, abs_of_neg hneg]
  · simp [hneg, Decimal.signText, abs_of_nonneg (not_lt.mp hneg)]

/-- A float is never written like an integer. -/
theorem floatText_not_int (q : ℚ) (w : ℕ) : ¬ ((floatText q w).frac = [] ∧ (floatText q w).exp = []) :=
  Decimal.write_not_integer rfl _ _ _

theorem readInt_intNumeral {n : ℤ} (h : ¬ maxStrDigits < (Decimal.digits Char.ofNat n.natAbs).length) :
    readInt (intNumeral n) = some n := by
  unfold readInt intNumeral Decimal.integer
  dsimp only
  rw [if_neg h]
  simp only [Decimal.readDigits_digits ascii_ofNat, Decimal.signText_eq_nil, decide_eq_false_iff_not]
  congr 1
  split <;> omega

end AgentWorkflow.Lib.PythonJson
