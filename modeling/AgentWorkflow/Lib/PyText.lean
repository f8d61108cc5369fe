import Mathlib

/-!
# Python strings

A `str` is a list of code points, lone surrogates included. Patterns are the
regular expressions that fix a character class for every position, so that a
full match of one is a pointwise check.
-/

namespace AgentWorkflow.Lib

abbrev CodePoint := Fin 0x110000
abbrev PyStr := List CodePoint

instance neZero_codePoints : NeZero 0x110000 := ⟨by decide⟩
instance CodePoint.lawfulBEq : LawfulBEq CodePoint := inferInstance
instance PyStr.lawfulBEq : LawfulBEq PyStr := inferInstance

namespace PyStr

def ofString (s : String) : PyStr := s.toList.map fun c => Fin.ofNat 0x110000 c.toNat

/-! ### UTF-8 -/

/-- `none` is the `UnicodeEncodeError` of a lone surrogate. -/
def utf8 (c : CodePoint) : Option (List UInt8) :=
  let n := c.val
  if n < 0x80 then some [n.toUInt8]
  else if n < 0x800 then some [(0xC0 + n / 0x40).toUInt8, (0x80 + n % 0x40).toUInt8]
  else if 0xD800 ≤ n ∧ n < 0xE000 then none
  else if n < 0x10000 then
    some [(0xE0 + n / 0x1000).toUInt8, (0x80 + n / 0x40 % 0x40).toUInt8, (0x80 + n % 0x40).toUInt8]
  else
    some [(0xF0 + n / 0x40000).toUInt8, (0x80 + n / 0x1000 % 0x40).toUInt8,
      (0x80 + n / 0x40 % 0x40).toUInt8, (0x80 + n % 0x40).toUInt8]

/-- `s.encode("utf-8")` -/
def encode : PyStr → Option (List UInt8)
  | [] => some []
  | c :: s => do
    let b ← utf8 c
    let bs ← encode s
    return b ++ bs

section
-- the equations are made here once, not in every proof at the same time
attribute [local simp] utf8 encode
end

theorem utf8_length {c : CodePoint} {b : List UInt8} (h : utf8 c = some b) : 1 ≤ b.length ∧ b.length ≤ 4 := by
  unfold utf8 at h
  dsimp only at h
  split_ifs at h <;> cases h <;> simp

theorem utf8_ascii {c : CodePoint} (h : c.val < 0x80) : utf8 c = some [c.val.toUInt8] := by
  simp [utf8, h]

theorem encode_cons {c : CodePoint} {s : PyStr} {b : List UInt8} (h : encode (c :: s) = some b) :
    ∃ x y, utf8 c = some x ∧ encode s = some y ∧ b = x ++ y := by
  simp only [encode, Option.bind_eq_bind, Option.bind_eq_some_iff, Option.pure_def, Option.some.injEq] at h
  obtain ⟨x, hx, y, hy, rfl⟩ := h
  exact ⟨x, y, hx, hy, rfl⟩

/-- A character takes between one and four bytes. -/
theorem encode_length {s : PyStr} {b : List UInt8} (h : encode s = some b) :
    s.length ≤ b.length ∧ b.length ≤ 4 * s.length := by
  induction s generalizing b with
  | nil =>
    cases h
    simp
  | cons c s ih =>
    obtain ⟨x, y, hx, hy, rfl⟩ := encode_cons h
    have hone := utf8_length hx
    have hrest := ih hy
    simp only [List.length_append, List.length_cons]
    omega

theorem encode_ascii {s : PyStr} (h : ∀ c ∈ s, c.val < 0x80) :
    encode s = some (s.map fun c => c.val.toUInt8) := by
  induction s with
  | nil => rfl
  | cons c s ih =>
    have hs := ih fun d hd => h d (List.mem_cons_of_mem _ hd)
    simp [encode, utf8_ascii (h c (List.mem_cons_self ..)), hs]

/-! ### Fixed-width patterns -/

abbrev Pattern := List (CodePoint → Bool)

def fullmatch : Pattern → PyStr → Bool
  | [], [] => true
  | f :: p, c :: s => f c && fullmatch p s
  | _, _ => false

section
-- the equations are made here once, not in every proof at the same time
attribute [local simp] fullmatch
end

def literal (s : String) : Pattern := (ofString s).map fun c d => decide (d = c)

/-- A class given by the characters in it. -/
def oneOf (s : String) (c : CodePoint) : Bool := decide (c ∈ ofString s)

def isDigit : CodePoint → Bool := oneOf "0123456789"

def isHexDigit : CodePoint → Bool := oneOf "0123456789abcdef"

theorem fullmatch_length {p : Pattern} {s : PyStr} (h : fullmatch p s = true) : s.length = p.length := by
  induction p generalizing s with
  | nil =>
    cases s with
    | nil => rfl
    | cons c s => cases h
  | cons f p ih =>
    cases s with
    | nil => cases h
    | cons c s =>
      simp only [fullmatch, Bool.and_eq_true] at h
      simp [ih h.2]

/-- Every class of the pattern is within ASCII. -/
def Ascii (p : Pattern) : Prop := ∀ f ∈ p, ∀ c, f c = true → c.val < 0x80

theorem fullmatch_ascii {p : Pattern} (hp : Ascii p) {s : PyStr} (h : fullmatch p s = true) :
    ∀ c ∈ s, c.val < 0x80 := by
  induction p generalizing s with
  | nil =>
    cases s with
    | nil => simp
    | cons c s => cases h
  | cons f p ih =>
    cases s with
    | nil => cases h
    | cons c s =>
      simp only [fullmatch, Bool.and_eq_true] at h
      intro d hd
      rcases List.mem_cons.mp hd with rfl | hd
      · exact hp f (List.mem_cons_self ..) d h.1
      · exact ih (fun g hg => hp g (List.mem_cons_of_mem _ hg)) h.2 d hd

theorem Ascii.append {p q : Pattern} (hp : Ascii p) (hq : Ascii q) : Ascii (p ++ q) := by
  intro f hf
  rcases List.mem_append.mp hf with h | h
  · exact hp f h
  · exact hq f h

theorem Ascii.cons {f : CodePoint → Bool} {p : Pattern} (hf : ∀ c, f c = true → c.val < 0x80) (hp : Ascii p) :
    Ascii (f :: p) := by
  intro g hg
  rcases List.mem_cons.mp hg with rfl | hg
  · exact hf
  · exact hp g hg

theorem Ascii.replicate {f : CodePoint → Bool} (hf : ∀ c, f c = true → c.val < 0x80) (n : ℕ) :
    Ascii (List.replicate n f) := by
  intro g hg
  rw [List.eq_of_mem_replicate hg]
  exact hf

def isAscii (s : PyStr) : Bool := s.all fun c => decide (c.val < 0x80)

theorem isAscii_iff {s : PyStr} : isAscii s = true ↔ ∀ c ∈ s, c.val < 0x80 := by
  simp [isAscii]

theorem ascii_literal {s : String} (h : isAscii (ofString s) = true) : Ascii (literal s) := by
  intro f hf c hc
  obtain ⟨d, hd, rfl⟩ := List.mem_map.mp hf
  rw [of_decide_eq_true hc]
  exact isAscii_iff.mp h d hd

theorem oneOf_ascii {s : String} (h : isAscii (ofString s) = true) (c : CodePoint) (hc : oneOf s c = true) :
    c.val < 0x80 :=
  isAscii_iff.mp h c (of_decide_eq_true hc)

theorem fullmatch_append {p q : Pattern} {s : PyStr} :
    fullmatch (p ++ q) s = (fullmatch p (s.take p.length) && fullmatch q (s.drop p.length)) := by
  induction p generalizing s with
  | nil => simp [fullmatch]
  | cons f p ih =>
    cases s with
    | nil => simp [fullmatch]
    | cons c s => simp [fullmatch, ih, Bool.and_assoc]

theorem fullmatch_literal {s : String} {t : PyStr} : fullmatch (literal s) t = true ↔ t = ofString s := by
  unfold literal
  induction ofString s generalizing t with
  | nil =>
    cases t with
    | nil => simp [fullmatch]
    | cons c t => simp [fullmatch]
  | cons d s ih =>
    cases t with
    | nil => simp [fullmatch]
    | cons c t => simp [fullmatch, ih]

/-- A string matches two patterns in a row when it splits into a match of each. -/
theorem fullmatch_append_iff {p q : Pattern} {s : PyStr} :
    fullmatch (p ++ q) s = true ↔ ∃ a b, s = a ++ b ∧ fullmatch p a = true ∧ fullmatch q b = true := by
  rw [fullmatch_append, Bool.and_eq_true]
  constructor
  · intro h
    exact ⟨_, _, (List.take_append_drop p.length s).symm, h⟩
  · rintro ⟨a, b, rfl, ha, hb⟩
    have hlen := fullmatch_length ha
    rw [List.take_left' hlen, List.drop_left' hlen]
    exact ⟨ha, hb⟩

/-! ### Numbers in a fixed width -/

/-- The last `w` digits of `n` in the base the digits stand for. -/
def padDigits (digits : String) : ℕ → ℕ → PyStr
  | 0, _ => []
  | w + 1, n =>
    let base := (ofString digits).length
    (ofString digits).getD (n / base ^ w % base) 0 :: padDigits digits w n

theorem fullmatch_padDigits {digits : String} (h : 0 < (ofString digits).length) (w n : ℕ) :
    fullmatch (List.replicate w (oneOf digits)) (padDigits digits w n) = true := by
  induction w with
  | zero => rfl
  | succ w ih =>
    have hmem : (ofString digits).getD (n / (ofString digits).length ^ w % (ofString digits).length) 0 ∈ ofString digits := by
      have hlt := Nat.mod_lt (n / (ofString digits).length ^ w) h
      rw [List.getD_eq_getElem _ _ hlt]
      exact List.getElem_mem hlt
    rw [List.replicate_succ, padDigits, fullmatch, Bool.and_eq_true]
    exact ⟨decide_eq_true hmem, ih⟩

end PyStr

/-! ### Strings of one width -/

/-- Of strings that start with fields of one width, the fields decide first. -/
theorem append_lt_append_iff {α : Type} [LinearOrder α] {s t x y : List α} (hlen : s.length = t.length) :
    s ++ x < t ++ y ↔ s < t ∨ (s = t ∧ x < y) := by
  induction s generalizing t with
  | nil =>
    cases t with
    | nil => simp
    | cons b t => simp at hlen
  | cons a s ih =>
    cases t with
    | nil => simp at hlen
    | cons b t =>
      have hst : s.length = t.length := by simpa using hlen
      rw [List.cons_append, List.cons_append, List.cons_lt_cons_iff, List.cons_lt_cons_iff, ih hst, List.cons.injEq]
      tauto

end AgentWorkflow.Lib
