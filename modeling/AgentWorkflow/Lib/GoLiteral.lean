import AgentWorkflow.Lib.Decimal
import AgentWorkflow.Lib.Utf8

/-!
# Strings and numbers as Go's `encoding/json` reads and writes them

A Go string is any list of bytes. Reading a string's text and writing a string both
put U+FFFD for every byte that is part of no character, so what is read after it was
written is the string with these bytes replaced.
-/

namespace AgentWorkflow.Lib.GoJson
open JsonText Utf8

/-! ### Reading a string -/

def runeError : List UInt8 := [0xEF, 0xBF, 0xBD]

/-- `utf8.EncodeRune`: a surrogate becomes U+FFFD. -/
def encodeRune (n : ℕ) : List UInt8 := (PyStr.utf8 (Fin.ofNat 0x110000 n)).getD runeError

def hexValue (b : UInt8) : ℕ :=
  if b.toNat ≤ 0x39 then b.toNat - 0x30 else if b.toNat ≤ 0x46 then b.toNat - 0x37 else b.toNat - 0x57

/-- `getu4` -/
def hex4 (h₁ h₂ h₃ h₄ : UInt8) : ℕ := hexValue h₁ * 0x1000 + hexValue h₂ * 0x100 + hexValue h₃ * 16 + hexValue h₄

/-- What a short escape stands for. -/
def shortValue (e : UInt8) : UInt8 :=
  if e = 0x62 then 0x08
  else if e = 0x66 then 0x0C
  else if e = 0x6E then 0x0A
  else if e = 0x72 then 0x0D
  else if e = 0x74 then 0x09
  else e

/-- The text between the quotes with its escapes written out as characters. -/
def expand : List UInt8 → List UInt8
  | [] => []
  | c :: t =>
    if c = 0x5C then
      match t with
      | [] => []
      | e :: t =>
        if e = 0x75 then
          match t with
          | h₁ :: h₂ :: h₃ :: h₄ :: t =>
            let n := hex4 h₁ h₂ h₃ h₄
            if 0xD800 ≤ n ∧ n < 0xDC00 then
              match t with
              | b :: u :: l₁ :: l₂ :: l₃ :: l₄ :: t' =>
                let l := hex4 l₁ l₂ l₃ l₄
                if b = 0x5C ∧ u = 0x75 ∧ 0xDC00 ≤ l ∧ l < 0xE000 then
                  encodeRune (0x10000 + (n - 0xD800) * 0x400 + (l - 0xDC00)) ++ expand t'
                else runeError ++ expand (b :: u :: l₁ :: l₂ :: l₃ :: l₄ :: t')
              | t => runeError ++ expand t
            else encodeRune n ++ expand t
          | _ => []
        else shortValue e :: expand t
    else c :: expand t

def sanitizePiece : Piece → List UInt8
  | .scalar bytes => bytes
  | .illFormed bytes => bytes.flatMap fun _ => runeError

/-- U+FFFD for every byte that `utf8.DecodeRune` refuses. -/
def sanitize (s : List UInt8) : List UInt8 := (pieces s).flatMap sanitizePiece

/-- `unquote`, without the quotes. An escape begins and ends a character. -/
def unquote (body : List UInt8) : List UInt8 := sanitize (expand body)

/-! ### Writing a string -/

def hexDigit (n : ℕ) : UInt8 := UInt8.ofNat (if n < 10 then 0x30 + n else 0x57 + n)

def unicodeEscape (n : ℕ) : List UInt8 :=
  [0x5C, 0x75, hexDigit (n / 0x1000 % 16), hexDigit (n / 0x100 % 16), hexDigit (n / 16 % 16), hexDigit (n % 16)]

/-- The letter after the backslash of a short escape. -/
def shortEscape (b : UInt8) : Option UInt8 :=
  if b = 0x22 then some 0x22
  else if b = 0x5C then some 0x5C
  else if b = 0x08 then some 0x62
  else if b = 0x0C then some 0x66
  else if b = 0x0A then some 0x6E
  else if b = 0x0D then some 0x72
  else if b = 0x09 then some 0x74
  else none

/-- An ASCII byte; `<`, `>` and `&` are escaped for HTML. -/
def quoteByte (b : UInt8) : List UInt8 :=
  match shortEscape b with
  | some e => [0x5C, e]
  | none => if b < 0x20 ∨ b = 0x3C ∨ b = 0x3E ∨ b = 0x26 then unicodeEscape b.toNat else [b]

def quotePiece : Piece → List UInt8
  | .scalar [b] => quoteByte b
  | .scalar bytes => if value bytes = 0x2028 ∨ value bytes = 0x2029 then unicodeEscape (value bytes) else bytes
  | .illFormed bytes => bytes.flatMap fun _ => unicodeEscape 0xFFFD

/-- `appendString`, without the quotes. -/
def quote (s : List UInt8) : List UInt8 := (pieces s).flatMap quotePiece

/-! ### Reading what was written -/

theorem hexDigit_spec {n : ℕ} (h : n < 16) :
    isHex UInt8.toNat (hexDigit n) = true ∧ hexValue (hexDigit n) = n := by
  have hall : ∀ n < 16, isHex UInt8.toNat (hexDigit n) = true ∧ hexValue (hexDigit n) = n := by decide
  exact hall n h

theorem expand_plain {c : UInt8} (h : c ≠ 0x5C) (t : List UInt8) : expand (c :: t) = c :: expand t := by
  rw [expand.eq_def]
  exact if_neg h

theorem expand_bytes {s : List UInt8} (h : ∀ b ∈ s, b ≠ 0x5C) (t : List UInt8) : expand (s ++ t) = s ++ expand t := by
  induction s with
  | nil => rfl
  | cons b s ih =>
    rw [List.cons_append, expand_plain (h b (List.mem_cons_self ..)), ih fun c hc => h c (List.mem_cons_of_mem _ hc)]
    rfl

theorem expand_short {e : UInt8} (h : e ≠ 0x75) (t : List UInt8) :
    expand (0x5C :: e :: t) = shortValue e :: expand t := by
  rw [expand.eq_def]
  simp only [if_true, if_neg h]

theorem expand_unicodeEscape {n : ℕ} (h : n < 0xD800 ∨ 0xE000 ≤ n ∧ n < 0x10000) (t : List UInt8) :
    expand (unicodeEscape n ++ t) = encodeRune n ++ expand t := by
  have h₁ := (hexDigit_spec (n := n / 0x1000 % 16) (by omega)).2
  have h₂ := (hexDigit_spec (n := n / 0x100 % 16) (by omega)).2
  have h₃ := (hexDigit_spec (n := n / 16 % 16) (by omega)).2
  have h₄ := (hexDigit_spec (n := n % 16) (by omega)).2
  have hn : hex4 (hexDigit (n / 0x1000 % 16)) (hexDigit (n / 0x100 % 16)) (hexDigit (n / 16 % 16))
      (hexDigit (n % 16)) = n := by
    unfold hex4
    rw [h₁, h₂, h₃, h₄]
    omega
  have hnot : ¬ (0xD800 ≤ n ∧ n < 0xDC00) := by omega
  simp only [unicodeEscape, List.cons_append, List.nil_append]
  rw [expand.eq_def]
  simp only [if_true, hn, if_neg hnot]

theorem shortEscape_spec {b e : UInt8} (h : shortEscape b = some e) :
    e ≠ 0x75 ∧ shortValue e = b ∧ isEscape UInt8.toNat e = true := by
  unfold shortEscape at h
  split_ifs at h with h₁ h₂ h₃ h₄ h₅ h₆ h₇
  all_goals
    cases h
    subst b
    decide

theorem encodeRune_ascii {b : UInt8} (h : b < 0x80) : encodeRune b.toNat = [b] := by
  have hlt : b.toNat < 0x80 := UInt8.lt_iff_toNat_lt.mp h
  have hval : (Fin.ofNat 0x110000 b.toNat).val = b.toNat := Nat.mod_eq_of_lt (by omega)
  unfold encodeRune
  rw [PyStr.utf8_ascii (by rw [hval]; exact hlt), hval]
  simp

theorem expand_quoteByte {b : UInt8} (h : b < 0x80) (t : List UInt8) : expand (quoteByte b ++ t) = b :: expand t := by
  have hlt : b.toNat < 0x80 := UInt8.lt_iff_toNat_lt.mp h
  unfold quoteByte
  cases hshort : shortEscape b with
  | some e =>
    obtain ⟨hu, hvalue, -⟩ := shortEscape_spec hshort
    rw [List.cons_append, List.cons_append, List.nil_append, expand_short hu, hvalue]
  | none =>
    dsimp only
    split
    · rw [expand_unicodeEscape (by omega), encodeRune_ascii h]
      rfl
    · refine expand_plain ?_ t
      rintro rfl
      simp [shortEscape] at hshort

/-- The bytes of a character: one ASCII byte, or none that is ASCII. -/
theorem utf8_bytes {c : CodePoint} {bytes : List UInt8} (h : PyStr.utf8 c = some bytes) :
    (∃ b, bytes = [b] ∧ b < 0x80) ∨ (bytes.length ≠ 1 ∧ ∀ b ∈ bytes, 0x80 ≤ b) := by
  have hc := c.isLt
  have htoNat : ∀ n < 256, n.toUInt8.toNat = n := by
    intro n hn
    simp [Nat.toUInt8, Nat.mod_eq_of_lt hn]
  have hmin : ∀ n : ℕ, 0x80 ≤ n → n < 256 → 0x80 ≤ n.toUInt8 := by
    intro n hn hlt
    rw [UInt8.le_iff_toNat_le, htoNat n hlt]
    exact hn
  unfold PyStr.utf8 at h
  dsimp only at h
  split_ifs at h with h₁ h₂ h₃ h₄
  · cases h
    refine Or.inl ⟨_, rfl, ?_⟩
    rw [UInt8.lt_iff_toNat_lt, htoNat _ (by omega)]
    exact h₁
  all_goals
    cases h
    refine Or.inr ⟨by simp, ?_⟩
    simp only [List.mem_cons, List.not_mem_nil, or_false, forall_eq_or_imp, forall_eq]
    repeat' apply And.intro
    all_goals exact hmin _ (by omega) (by omega)

theorem encodeRune_value {bytes : List UInt8} (h : (Piece.scalar bytes).Ok) : encodeRune (value bytes) = bytes := by
  have hutf8 : PyStr.utf8 (Fin.ofNat 0x110000 (value bytes)) = some bytes := h
  rw [encodeRune, hutf8, Option.getD_some]

theorem expand_errors (bytes t : List UInt8) :
    expand ((bytes.flatMap fun _ => unicodeEscape 0xFFFD) ++ t) = (bytes.flatMap fun _ => runeError) ++ expand t := by
  have herror : encodeRune 0xFFFD = runeError := by decide
  induction bytes with
  | nil => rfl
  | cons b bytes ih =>
    rw [List.flatMap_cons, List.flatMap_cons, List.append_assoc, expand_unicodeEscape (by decide), herror, ih,
      List.append_assoc]

theorem quotePiece_long {bytes : List UInt8} (h : bytes.length ≠ 1) :
    quotePiece (.scalar bytes) =
      if value bytes = 0x2028 ∨ value bytes = 0x2029 then unicodeEscape (value bytes) else bytes := by
  match bytes with
  | [] => rfl
  | [b] => exact absurd rfl h
  | _ :: _ :: _ => rfl

theorem expand_quotePiece {p : Piece} (hp : p.Ok) (t : List UInt8) :
    expand (quotePiece p ++ t) = sanitizePiece p ++ expand t := by
  cases p with
  | illFormed bytes => exact expand_errors bytes t
  | scalar bytes =>
    rcases utf8_bytes hp with ⟨b, rfl, hb⟩ | ⟨hlen, hall⟩
    · exact expand_quoteByte hb t
    · rw [quotePiece_long hlen]
      split
      · rw [expand_unicodeEscape (by omega), encodeRune_value hp]
        rfl
      · refine expand_bytes (fun b hb => ?_) t
        rintro rfl
        exact absurd (hall _ hb) (by decide)

theorem expand_quote (s : List UInt8) : expand (quote s) = sanitize s := by
  have hall : ∀ ps : List Piece, (∀ p ∈ ps, p.Ok) → expand (ps.flatMap quotePiece) = ps.flatMap sanitizePiece := by
    intro ps
    induction ps with
    | nil => exact fun _ => rfl
    | cons p ps ih =>
      intro h
      rw [List.flatMap_cons, List.flatMap_cons, expand_quotePiece (h p (List.mem_cons_self ..)),
        ih fun q hq => h q (List.mem_cons_of_mem _ hq)]
  exact hall _ (pieces_ok s)

/-- What a piece is written as: characters. -/
theorem sanitizePiece_whole {p : Piece} (hp : p.Whole) :
    ∃ chars : List (List UInt8), sanitizePiece p = chars.flatten ∧ ∀ c ∈ chars, (Piece.scalar c).Whole := by
  cases p with
  | scalar bytes => exact ⟨[bytes], by simp [sanitizePiece], by simpa using hp⟩
  | illFormed bytes =>
    refine ⟨bytes.map fun _ => runeError, by simp [sanitizePiece, List.flatMap], ?_⟩
    intro c hc
    obtain ⟨b, -, rfl⟩ := List.mem_map.mp hc
    rfl

theorem sanitize_whole (s : List UInt8) :
    ∃ chars : List (List UInt8), sanitize s = chars.flatten ∧ ∀ c ∈ chars, (Piece.scalar c).Whole := by
  have hall : ∀ ps : List Piece, (∀ p ∈ ps, p.Whole) → ∃ chars : List (List UInt8),
      ps.flatMap sanitizePiece = chars.flatten ∧ ∀ c ∈ chars, (Piece.scalar c).Whole := by
    intro ps
    induction ps with
    | nil => exact fun _ => ⟨[], rfl, by simp⟩
    | cons p ps ih =>
      intro h
      obtain ⟨chars, hchars, hwhole⟩ := sanitizePiece_whole (h p (List.mem_cons_self ..))
      obtain ⟨more, hmore, hmores⟩ := ih fun q hq => h q (List.mem_cons_of_mem _ hq)
      refine ⟨chars ++ more, by rw [List.flatMap_cons, hchars, hmore, List.flatten_append], ?_⟩
      intro c hc
      rcases List.mem_append.mp hc with hc | hc
      · exact hwhole c hc
      · exact hmores c hc
  exact hall _ (pieces_whole s)

theorem sanitize_sanitize (s : List UInt8) : sanitize (sanitize s) = sanitize s := by
  obtain ⟨chars, hchars, hwhole⟩ := sanitize_whole s
  rw [hchars, sanitize, pieces_flatten hwhole, List.flatMap_map]
  simp only [sanitizePiece]
  exact List.flatMap_id'

/-- Reading a string that was written. -/
theorem unquote_quote (s : List UInt8) : unquote (quote s) = sanitize s := by
  rw [unquote, expand_quote, sanitize_sanitize]

theorem sanitize_unquote (body : List UInt8) : sanitize (unquote body) = unquote body :=
  sanitize_sanitize (expand body)

/-! ### What is written is a string's text -/

theorem body_unicodeEscape (n : ℕ) : Body UInt8.toNat (unicodeEscape n) := by
  refine .unicode rfl rfl ?_ .nil
  simp only [List.all_cons, List.all_nil, Bool.and_true, Bool.and_eq_true]
  exact ⟨(hexDigit_spec (by omega)).1, (hexDigit_spec (by omega)).1, (hexDigit_spec (by omega)).1,
    (hexDigit_spec (by omega)).1⟩

theorem body_flatMap {β : Type} {f : β → List UInt8} {l : List β} (h : ∀ x ∈ l, Body UInt8.toNat (f x)) :
    Body UInt8.toNat (l.flatMap f) := by
  induction l with
  | nil => exact .nil
  | cons x l ih =>
    rw [List.flatMap_cons]
    exact (h x (List.mem_cons_self ..)).append (ih fun y hy => h y (List.mem_cons_of_mem _ hy))

theorem body_bytes {s : List UInt8} (h : ∀ b ∈ s, 0x20 ≤ b ∧ b ≠ 0x22 ∧ b ≠ 0x5C) : Body UInt8.toNat s := by
  induction s with
  | nil => exact .nil
  | cons b s ih =>
    obtain ⟨hmin, hquote, hslash⟩ := h b (List.mem_cons_self ..)
    refine .plain (UInt8.le_iff_toNat_le.mp hmin) (fun hb => hquote ?_) (fun hb => hslash ?_)
      (ih fun c hc => h c (List.mem_cons_of_mem _ hc))
    · exact UInt8.toNat_inj.mp hb
    · exact UInt8.toNat_inj.mp hb

theorem body_quoteByte (b : UInt8) : Body UInt8.toNat (quoteByte b) := by
  unfold quoteByte
  cases hshort : shortEscape b with
  | some e => exact .escape rfl (shortEscape_spec hshort).2.2 .nil
  | none =>
    dsimp only
    split
    · exact body_unicodeEscape _
    · next hplain =>
      refine body_bytes fun c hc => ?_
      rw [List.mem_singleton.mp hc]
      refine ⟨UInt8.not_lt.mp fun h => hplain (Or.inl h), ?_, ?_⟩
      · rintro rfl
        simp [shortEscape] at hshort
      · rintro rfl
        simp [shortEscape] at hshort

theorem body_quotePiece {p : Piece} (hp : p.Ok) : Body UInt8.toNat (quotePiece p) := by
  cases p with
  | illFormed bytes => exact body_flatMap fun _ _ => body_unicodeEscape _
  | scalar bytes =>
    rcases utf8_bytes hp with ⟨b, rfl, -⟩ | ⟨hlen, hall⟩
    · exact body_quoteByte b
    · rw [quotePiece_long hlen]
      split
      · exact body_unicodeEscape _
      · refine body_bytes fun b hb => ?_
        have hmin : 0x80 ≤ b.toNat := UInt8.le_iff_toNat_le.mp (hall b hb)
        refine ⟨UInt8.le_iff_toNat_le.mpr (le_trans (by decide) hmin), ?_, ?_⟩
        · rintro rfl
          exact absurd hmin (by decide)
        · rintro rfl
          exact absurd hmin (by decide)

theorem body_quote (s : List UInt8) : Body UInt8.toNat (quote s) :=
  body_flatMap fun p hp => body_quotePiece (pieces_ok s p hp)

/-! ### Numbers -/

/-- The word of `1e-6`. -/
def millionth : ℕ := 0x3EB0C6F7A0B5ED8D

/-- The word of `1e21`. -/
def sextillion : ℕ := 0x444B1AE4D6E2EF50

/-- `floatEncoder`: an exponent, without leading zero, for what is below `1e-6` or from
`1e21` on. -/
def floatStyle (w : ℕ) : Decimal.Style := ⟨decide (w ≠ 0 ∧ (w < millionth ∨ sextillion ≤ w)), 1, false⟩

def floatNumeral (negative : Bool) (w : ℕ) : Numeral UInt8 := Decimal.writeWord UInt8.ofNat (floatStyle w) negative w

theorem ascii_ofNat : Ascii UInt8.toNat UInt8.ofNat := by
  intro n hn
  exact Nat.mod_eq_of_lt (by omega)

theorem floatNumeral_ok (negative : Bool) (w : ℕ) : (floatNumeral negative w).Ok UInt8.toNat :=
  Decimal.writeWord_ok ascii_ofNat _ negative w

end AgentWorkflow.Lib.GoJson
