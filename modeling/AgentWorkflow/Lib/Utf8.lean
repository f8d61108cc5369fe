import AgentWorkflow.Lib.PyText

/-!
# Decoding UTF-8 with replacement

A decoder fed one byte at a time. It keeps the bytes of a character that has begun
and is not ill-formed yet; bytes that cannot belong to a character are replaced,
one mark for each longest ill-formed piece, as Python's `errors="replace"` and the
decoders of browsers do it.
-/

namespace AgentWorkflow.Lib.Utf8
open AgentWorkflow.Lib.PyStr

/-- A character or a piece that stands for none, with the bytes it was read from. -/
inductive Piece where
  | scalar (bytes : List UInt8)
  | illFormed (bytes : List UInt8)
deriving DecidableEq

/-- How many bytes the character has that begins with `b`; 0 where none does. -/
def width (b : UInt8) : ℕ :=
  if b < 0x80 then 1 else if b < 0xC2 then 0 else if b < 0xE0 then 2 else if b < 0xF0 then 3
  else if b < 0xF5 then 4 else 0

/-- The bounds of the second byte leave out surrogates, overlong forms and what is past the last code point. -/
def lower (b : UInt8) : UInt8 := if b = 0xE0 then 0xA0 else if b = 0xF0 then 0x90 else 0x80

def upper (b : UInt8) : UInt8 := if b = 0xED then 0x9F else if b = 0xF4 then 0x8F else 0xBF

def continues : List UInt8 → UInt8 → Bool
  | [b₁], b => decide (lower b₁ ≤ b) && decide (b ≤ upper b₁)
  | _, b => decide (0x80 ≤ b) && decide (b ≤ 0xBF)

def complete : List UInt8 → Bool
  | [] => false
  | b :: bs => decide (width b = bs.length + 1)

/-- Pieces that are done, and the bytes of the character that has begun. -/
abbrev Fed := List Piece × List UInt8

def start (b : UInt8) : Fed :=
  match width b with
  | 0 => ([.illFormed [b]], [])
  | 1 => ([.scalar [b]], [])
  | _ => ([], [b])

def feed (seen : List UInt8) (b : UInt8) : Fed :=
  if seen = [] then start b
  else if continues seen b then
    if complete (seen ++ [b]) then ([.scalar (seen ++ [b])], []) else ([], seen ++ [b])
  else (.illFormed seen :: (start b).1, (start b).2)

def feedAll (seen : List UInt8) : List UInt8 → Fed
  | [] => ([], seen)
  | b :: bs =>
    let r := feed seen b
    let rest := feedAll r.2 bs
    (r.1 ++ rest.1, rest.2)

def finish (seen : List UInt8) : List Piece := if seen = [] then [] else [.illFormed seen]

def pieces (bytes : List UInt8) : List Piece :=
  let r := feedAll [] bytes
  r.1 ++ finish r.2

/-! ### Characters -/

def value : List UInt8 → ℕ
  | [b₁] => b₁.toNat
  | [b₁, b₂] => (b₁.toNat - 0xC0) * 0x40 + (b₂.toNat - 0x80)
  | [b₁, b₂, b₃] => (b₁.toNat - 0xE0) * 0x1000 + (b₂.toNat - 0x80) * 0x40 + (b₃.toNat - 0x80)
  | [b₁, b₂, b₃, b₄] =>
    (b₁.toNat - 0xF0) * 0x40000 + (b₂.toNat - 0x80) * 0x1000 + (b₃.toNat - 0x80) * 0x40 + (b₄.toNat - 0x80)
  | _ => 0

def replacement : CodePoint := 0xFFFD

def Piece.char : Piece → CodePoint
  | .scalar bytes => Fin.ofNat 0x110000 (value bytes)
  | .illFormed _ => replacement

/-- `bytes.decode("utf-8", errors="replace")` -/
def decodeReplace (bytes : List UInt8) : PyStr := (pieces bytes).map Piece.char

def Piece.bytes : Piece → List UInt8
  | .scalar bytes => bytes
  | .illFormed bytes => bytes

/-- The bytes of the piece once it is encoded again. -/
def Piece.size : Piece → ℕ
  | .scalar bytes => bytes.length
  | .illFormed _ => 3

def size (ps : List Piece) : ℕ := (ps.map Piece.size).sum

/-! ### What a piece holds -/

/-- The beginning of a character that lacks at least one byte. -/
inductive Begun : List UInt8 → Prop where
  | one {b₁ : UInt8} (h : 2 ≤ width b₁) : Begun [b₁]
  | two {b₁ b₂ : UInt8} (h : 3 ≤ width b₁) (h₂ : continues [b₁] b₂ = true) : Begun [b₁, b₂]
  | three {b₁ b₂ b₃ : UInt8} (h : 4 ≤ width b₁) (h₂ : continues [b₁] b₂ = true) (h₃ : continues [b₁, b₂] b₃ = true) :
    Begun [b₁, b₂, b₃]

def Piece.Ok : Piece → Prop
  | .scalar bytes => utf8 (Fin.ofNat 0x110000 (value bytes)) = some bytes
  | .illFormed bytes => bytes ≠ [] ∧ bytes.length ≤ 3

theorem width_cases (b : UInt8) :
    (width b = 1 ∧ b.toNat < 0x80) ∨ (width b = 2 ∧ 0xC2 ≤ b.toNat ∧ b.toNat < 0xE0) ∨
      (width b = 3 ∧ 0xE0 ≤ b.toNat ∧ b.toNat < 0xF0) ∨ (width b = 4 ∧ 0xF0 ≤ b.toNat ∧ b.toNat < 0xF5) ∨
      width b = 0 := by
  unfold width
  simp only [UInt8.lt_iff_toNat_lt]
  split_ifs with h1 h2 h3 h4 h5
  · exact Or.inl ⟨rfl, h1⟩
  · exact Or.inr (Or.inr (Or.inr (Or.inr rfl)))
  · exact Or.inr (Or.inl ⟨rfl, not_lt.mp h2, h3⟩)
  · exact Or.inr (Or.inr (Or.inl ⟨rfl, not_lt.mp h3, h4⟩))
  · exact Or.inr (Or.inr (Or.inr (Or.inl ⟨rfl, not_lt.mp h4, h5⟩)))
  · exact Or.inr (Or.inr (Or.inr (Or.inr rfl)))

theorem continues_second {b₁ b : UInt8} (h : continues [b₁] b = true) :
    0x80 ≤ b.toNat ∧ b.toNat ≤ 0xBF ∧ (b₁.toNat = 0xE0 → 0xA0 ≤ b.toNat) ∧ (b₁.toNat = 0xF0 → 0x90 ≤ b.toNat) ∧
      (b₁.toNat = 0xED → b.toNat ≤ 0x9F) ∧ (b₁.toNat = 0xF4 → b.toNat ≤ 0x8F) := by
  simp only [continues, lower, upper, Bool.and_eq_true, decide_eq_true_eq, UInt8.le_iff_toNat_le,
    ← UInt8.toNat_inj] at h
  obtain ⟨hlow, hup⟩ := h
  split_ifs at hlow hup <;> simp_all <;> omega

theorem continues_later {b₁ b₂ b : UInt8} {bs : List UInt8} (h : continues (b₁ :: b₂ :: bs) b = true) :
    0x80 ≤ b.toNat ∧ b.toNat ≤ 0xBF := by
  simp only [continues, Bool.and_eq_true, decide_eq_true_eq, UInt8.le_iff_toNat_le] at h
  exact h

theorem toUInt8_eq {n : ℕ} {b : UInt8} (h : n = b.toNat) : n.toUInt8 = b := by
  rw [h]
  exact UInt8.ofNat_toNat

theorem val_ofNat {n : ℕ} (h : n < 0x110000) : (Fin.ofNat 0x110000 n).val = n := by
  rw [Fin.val_ofNat]
  exact Nat.mod_eq_of_lt h

theorem utf8_one {b₁ : UInt8} (h : width b₁ = 1) : utf8 (Fin.ofNat 0x110000 (value [b₁])) = some [b₁] := by
  have h₁ : b₁.toNat < 0x80 := by
    rcases width_cases b₁ with hw | hw | hw | hw | hw <;> omega
  let n := value [b₁]
  have hn : n = b₁.toNat := rfl
  have hval : (Fin.ofNat 0x110000 n).val = n := val_ofNat (by omega)
  show utf8 (Fin.ofNat 0x110000 n) = _
  simp only [utf8, hval]
  rw [if_pos (by omega), toUInt8_eq (b := b₁) (by omega)]

theorem utf8_two {b₁ b₂ : UInt8} (h : width b₁ = 2) (h₂ : continues [b₁] b₂ = true) :
    utf8 (Fin.ofNat 0x110000 (value [b₁, b₂])) = some [b₁, b₂] := by
  have h₁ : 0xC2 ≤ b₁.toNat ∧ b₁.toNat < 0xE0 := by
    rcases width_cases b₁ with hw | hw | hw | hw | hw <;> omega
  obtain ⟨hlow, hup, -⟩ := continues_second h₂
  let n := value [b₁, b₂]
  have hn : n = (b₁.toNat - 0xC0) * 0x40 + (b₂.toNat - 0x80) := rfl
  have hval : (Fin.ofNat 0x110000 n).val = n := val_ofNat (by omega)
  show utf8 (Fin.ofNat 0x110000 n) = _
  simp only [utf8, hval]
  rw [if_neg (by omega), if_pos (by omega), toUInt8_eq (b := b₁) (by omega), toUInt8_eq (b := b₂) (by omega)]

theorem utf8_three {b₁ b₂ b₃ : UInt8} (h : width b₁ = 3) (h₂ : continues [b₁] b₂ = true)
    (h₃ : continues [b₁, b₂] b₃ = true) :
    utf8 (Fin.ofNat 0x110000 (value [b₁, b₂, b₃])) = some [b₁, b₂, b₃] := by
  have h₁ : 0xE0 ≤ b₁.toNat ∧ b₁.toNat < 0xF0 := by
    rcases width_cases b₁ with hw | hw | hw | hw | hw <;> omega
  obtain ⟨hlow, hup, hE0, -, hED, -⟩ := continues_second h₂
  obtain ⟨hlow₃, hup₃⟩ := continues_later h₃
  let n := value [b₁, b₂, b₃]
  have hn : n = (b₁.toNat - 0xE0) * 0x1000 + (b₂.toNat - 0x80) * 0x40 + (b₃.toNat - 0x80) := rfl
  have hval : (Fin.ofNat 0x110000 n).val = n := val_ofNat (by omega)
  show utf8 (Fin.ofNat 0x110000 n) = _
  simp only [utf8, hval]
  rw [if_neg (by omega), if_neg (by omega), if_neg (by omega), if_pos (by omega), toUInt8_eq (b := b₁) (by omega),
    toUInt8_eq (b := b₂) (by omega), toUInt8_eq (b := b₃) (by omega)]

theorem utf8_four {b₁ b₂ b₃ b₄ : UInt8} (h : width b₁ = 4) (h₂ : continues [b₁] b₂ = true)
    (h₃ : continues [b₁, b₂] b₃ = true) (h₄ : continues [b₁, b₂, b₃] b₄ = true) :
    utf8 (Fin.ofNat 0x110000 (value [b₁, b₂, b₃, b₄])) = some [b₁, b₂, b₃, b₄] := by
  have h₁ : 0xF0 ≤ b₁.toNat ∧ b₁.toNat < 0xF5 := by
    rcases width_cases b₁ with hw | hw | hw | hw | hw <;> omega
  obtain ⟨hlow, hup, -, hF0, -, hF4⟩ := continues_second h₂
  obtain ⟨hlow₃, hup₃⟩ := continues_later h₃
  obtain ⟨hlow₄, hup₄⟩ := continues_later h₄
  let n := value [b₁, b₂, b₃, b₄]
  have hn : n = (b₁.toNat - 0xF0) * 0x40000 + (b₂.toNat - 0x80) * 0x1000 + (b₃.toNat - 0x80) * 0x40 +
      (b₄.toNat - 0x80) := rfl
  have hval : (Fin.ofNat 0x110000 n).val = n := val_ofNat (by omega)
  show utf8 (Fin.ofNat 0x110000 n) = _
  simp only [utf8, hval]
  rw [if_neg (by omega), if_neg (by omega), if_neg (by omega), if_neg (by omega), toUInt8_eq (b := b₁) (by omega),
    toUInt8_eq (b := b₂) (by omega), toUInt8_eq (b := b₃) (by omega), toUInt8_eq (b := b₄) (by omega)]

/-! ### What one byte does -/

def Good (r : Fed) : Prop := (∀ p ∈ r.1, p.Ok) ∧ (r.2 = [] ∨ Begun r.2)

theorem Begun.ok {seen : List UInt8} (h : Begun seen) : Piece.Ok (.illFormed seen) := by
  cases h with
  | one => simp [Piece.Ok]
  | two => simp [Piece.Ok]
  | three => simp [Piece.Ok]

theorem good_start (b : UInt8) : Good (start b) := by
  unfold start
  split
  · exact ⟨by simp [Piece.Ok], Or.inl rfl⟩
  next hw => exact ⟨by simpa [Piece.Ok] using utf8_one hw, Or.inl rfl⟩
  next h0 h1 =>
    have hwidth : 2 ≤ width b := by
      have hne0 : width b ≠ 0 := h0
      have hne1 : width b ≠ 1 := h1
      omega
    exact ⟨by simp, Or.inr (Begun.one hwidth)⟩

theorem good_feed {seen : List UInt8} (h : seen = [] ∨ Begun seen) (b : UInt8) : Good (feed seen b) := by
  unfold feed
  split
  · exact good_start b
  next hne =>
    have hbegun := h.resolve_left hne
    split
    next hcont =>
      cases hbegun with
      | @one b₁ h₁ =>
        simp only [complete, List.singleton_append, List.length_singleton, decide_eq_true_eq]
        split
        next hw => exact ⟨by simpa [Piece.Ok] using utf8_two hw hcont, Or.inl rfl⟩
        next hw => exact ⟨by simp, Or.inr (Begun.two (by omega) hcont)⟩
      | @two b₁ b₂ h₁ h₂ =>
        simp only [complete, List.cons_append, List.nil_append, List.length_cons, List.length_nil, decide_eq_true_eq]
        split
        next hw => exact ⟨by simpa [Piece.Ok] using utf8_three hw h₂ hcont, Or.inl rfl⟩
        next hw => exact ⟨by simp, Or.inr (Begun.three (by omega) h₂ hcont)⟩
      | @three b₁ b₂ b₃ h₁ h₂ h₃ =>
        simp only [complete, List.cons_append, List.nil_append, List.length_cons, List.length_nil, decide_eq_true_eq]
        have hw : width b₁ = 4 := by
          rcases width_cases b₁ with hw | hw | hw | hw | hw <;> omega
        rw [if_pos hw]
        exact ⟨by simpa [Piece.Ok] using utf8_four hw h₂ h₃ hcont, Or.inl rfl⟩
    · refine ⟨?_, (good_start b).2⟩
      intro p hp
      rcases List.mem_cons.mp hp with rfl | hp
      · exact hbegun.ok
      · exact (good_start b).1 p hp

theorem good_feedAll {seen : List UInt8} (h : seen = [] ∨ Begun seen) (bytes : List UInt8) :
    Good (feedAll seen bytes) := by
  induction bytes generalizing seen with
  | nil => exact ⟨by simp [feedAll], h⟩
  | cons b bytes ih =>
    have hfirst := good_feed h b
    have hrest := ih hfirst.2
    refine ⟨?_, hrest.2⟩
    intro p hp
    rcases List.mem_append.mp hp with hp | hp
    · exact hfirst.1 p hp
    · exact hrest.1 p hp

theorem pieces_ok (bytes : List UInt8) : ∀ p ∈ pieces bytes, p.Ok := by
  have hgood := good_feedAll (Or.inl rfl) bytes
  intro p hp
  rcases List.mem_append.mp hp with hp | hp
  · exact hgood.1 p hp
  · unfold finish at hp
    split at hp
    · cases hp
    next hne =>
      rw [List.mem_singleton.mp hp]
      exact (hgood.2.resolve_left hne).ok

/-! ### No byte is lost -/

def held (r : Fed) : List UInt8 := (r.1.flatMap Piece.bytes) ++ r.2

theorem held_start (b : UInt8) : held (start b) = [b] := by
  unfold start held
  split <;> rfl

theorem held_feed (seen : List UInt8) (b : UInt8) : held (feed seen b) = seen ++ [b] := by
  unfold feed
  split
  next hnil =>
    rw [held_start, hnil]
    rfl
  · split
    · split
      · simp [held, Piece.bytes]
      · simp [held]
    · have hstart := held_start b
      simp only [held] at hstart ⊢
      rw [List.flatMap_cons, List.append_assoc, hstart]
      rfl

theorem held_feedAll (seen bytes : List UInt8) : held (feedAll seen bytes) = seen ++ bytes := by
  induction bytes generalizing seen with
  | nil => simp [feedAll, held]
  | cons b bytes ih =>
    have hfirst := held_feed seen b
    have hrest := ih (feed seen b).2
    simp only [held] at hfirst hrest
    simp only [feedAll, held, List.flatMap_append, List.append_assoc]
    rw [hrest, ← List.append_assoc, hfirst]
    simp

theorem pieces_bytes (bytes : List UInt8) : (pieces bytes).flatMap Piece.bytes = bytes := by
  have hheld := held_feedAll [] bytes
  simp only [held, List.nil_append] at hheld
  simp only [pieces, List.flatMap_append]
  unfold finish
  split
  next hnil =>
    rw [hnil, List.append_nil] at hheld
    simpa using hheld
  next => simpa [Piece.bytes] using hheld

/-! ### Characters by themselves -/

theorem feedAll_append (seen s t : List UInt8) :
    feedAll seen (s ++ t) =
      ((feedAll seen s).1 ++ (feedAll (feedAll seen s).2 t).1, (feedAll (feedAll seen s).2 t).2) := by
  induction s generalizing seen with
  | nil => simp [feedAll]
  | cons b s ih =>
    simp only [List.cons_append, feedAll, ih, List.append_assoc]

theorem feedAll_snoc (seen s : List UInt8) (b : UInt8) :
    feedAll seen (s ++ [b]) =
      ((feedAll seen s).1 ++ (feed (feedAll seen s).2 b).1, (feed (feedAll seen s).2 b).2) := by
  rw [feedAll_append]
  simp [feedAll]

/-- No ASCII byte continues a character. -/
theorem continues_high {seen : List UInt8} {b : UInt8} (h : continues seen b = true) : 0x80 ≤ b := by
  match seen, h with
  | [], h => simp_all [continues]
  | [b₁], h =>
    have hlower : 0x80 ≤ lower b₁ := by
      unfold lower
      split_ifs <;> decide
    simp only [continues, Bool.and_eq_true, decide_eq_true_eq] at h
    exact UInt8.le_trans hlower h.1
  | b₁ :: b₂ :: bs, h => simp_all [continues]

/-- An ASCII byte ends what has begun and stands for itself. -/
theorem feed_ascii {b : UInt8} (hb : b < 0x80) (seen : List UInt8) : feed seen b = (finish seen ++ [.scalar [b]], []) := by
  have hstart : start b = ([.scalar [b]], []) := by
    have hwidth : width b = 1 := if_pos hb
    unfold start
    rw [hwidth]
    rfl
  unfold feed finish
  split
  · exact hstart
  · rw [if_neg fun h => UInt8.not_le.mpr hb (continues_high h), hstart]
    rfl

theorem feedAll_ascii {b : UInt8} (hb : b < 0x80) (s t : List UInt8) :
    feedAll [] (s ++ b :: t) = (pieces s ++ .scalar [b] :: (feedAll [] t).1, (feedAll [] t).2) := by
  rw [feedAll_append]
  simp [feedAll, feed_ascii hb, pieces]

/-- Read by itself the piece is one character. -/
def Piece.Whole : Piece → Prop
  | .scalar bytes => feedAll [] bytes = ([.scalar bytes], [])
  | .illFormed _ => True

/-- The bytes of a character that has begun, read by themselves. -/
def Pending (seen : List UInt8) : Prop := feedAll [] seen = ([], seen)

theorem whole_start (b : UInt8) : (∀ p ∈ (start b).1, p.Whole) ∧ Pending (start b).2 := by
  have hself : feedAll [] [b] = start b := by simp [feedAll, feed]
  unfold Pending
  unfold start at hself ⊢
  split
  · exact ⟨by simp [Piece.Whole], rfl⟩
  · next hw =>
    rw [hw] at hself
    exact ⟨by simpa [Piece.Whole] using hself, rfl⟩
  · next h0 h1 =>
    split at hself
    · next h => exact (h0 h).elim
    · next h => exact (h1 h).elim
    · exact ⟨by simp, hself⟩

theorem whole_feed {seen : List UInt8} (h : Pending seen) (b : UInt8) :
    (∀ p ∈ (feed seen b).1, p.Whole) ∧ Pending (feed seen b).2 := by
  have hself := feedAll_snoc [] seen b
  rw [h] at hself
  dsimp only at hself
  by_cases hnil : seen = []
  · subst hnil
    exact whole_start b
  · unfold feed at hself ⊢
    rw [if_neg hnil] at hself ⊢
    split at hself
    · split at hself
      · next hc hd =>
        rw [if_pos hc, if_pos hd]
        exact ⟨by simpa [Piece.Whole] using hself, rfl⟩
      · next hc hd =>
        rw [if_pos hc, if_neg hd]
        exact ⟨by simp, hself⟩
    · next hc =>
      rw [if_neg hc]
      have hstart := whole_start b
      refine ⟨fun p hp => ?_, hstart.2⟩
      rcases List.mem_cons.mp hp with rfl | hp
      · trivial
      · exact hstart.1 p hp

theorem whole_feedAll {seen : List UInt8} (h : Pending seen) (bytes : List UInt8) :
    (∀ p ∈ (feedAll seen bytes).1, p.Whole) ∧ Pending (feedAll seen bytes).2 := by
  induction bytes generalizing seen with
  | nil => exact ⟨by simp [feedAll], h⟩
  | cons b bytes ih =>
    have hfirst := whole_feed h b
    have hrest := ih hfirst.2
    refine ⟨fun p hp => ?_, hrest.2⟩
    rcases List.mem_append.mp hp with hp | hp
    · exact hfirst.1 p hp
    · exact hrest.1 p hp

theorem pieces_whole (bytes : List UInt8) : ∀ p ∈ pieces bytes, p.Whole := by
  have hpending : Pending [] := rfl
  have h := whole_feedAll hpending bytes
  intro p hp
  rcases List.mem_append.mp hp with hp | hp
  · exact h.1 p hp
  · unfold finish at hp
    split at hp
    · cases hp
    · rw [List.mem_singleton.mp hp]
      trivial

/-- Characters in a row are read as these characters. -/
theorem pieces_flatten {chars : List (List UInt8)} (h : ∀ c ∈ chars, (Piece.scalar c).Whole) :
    pieces chars.flatten = chars.map .scalar := by
  have hfeed : feedAll [] chars.flatten = (chars.map .scalar, []) := by
    induction chars with
    | nil => rfl
    | cons c chars ih =>
      have hc : feedAll [] c = ([.scalar c], []) := h c (List.mem_cons_self ..)
      rw [List.flatten_cons, feedAll_append, hc, ih fun d hd => h d (List.mem_cons_of_mem _ hd)]
      rfl
  unfold pieces
  rw [hfeed]
  simp [finish]

/-! ### Encoding again -/

theorem Piece.Ok.utf8_char {p : Piece} (h : p.Ok) : ∃ b, utf8 p.char = some b ∧ b.length = p.size := by
  cases p with
  | scalar bytes => exact ⟨bytes, h, rfl⟩
  | illFormed bytes => exact ⟨[0xEF, 0xBF, 0xBD], (by decide : utf8 replacement = _), rfl⟩

/-- Only an ASCII byte is read as an ASCII character. -/
theorem Piece.Ok.ascii {p : Piece} (h : p.Ok) (hc : p.char.val < 0x80) : p.bytes = [p.char.val.toUInt8] := by
  cases p with
  | scalar bytes =>
    have hutf8 : utf8 (Piece.scalar bytes).char = some bytes := h
    rw [utf8_ascii hc] at hutf8
    exact (Option.some.inj hutf8).symm
  | illFormed bytes =>
    have hchar : (Piece.illFormed bytes).char.val = 0xFFFD := rfl
    omega

theorem decodeReplace_ascii {bytes : List UInt8} {c : CodePoint} (hc : c.val < 0x80) (h : c ∈ decodeReplace bytes) :
    c.val.toUInt8 ∈ bytes := by
  obtain ⟨p, hp, rfl⟩ := List.mem_map.mp h
  have hbytes := (pieces_ok bytes p hp).ascii hc
  rw [← pieces_bytes bytes]
  exact List.mem_flatMap.mpr ⟨p, hp, by rw [hbytes]; exact List.mem_singleton_self _⟩

theorem encode_chars {ps : List Piece} (h : ∀ p ∈ ps, p.Ok) :
    ∃ b, encode (ps.map Piece.char) = some b ∧ b.length = size ps := by
  induction ps with
  | nil => exact ⟨[], rfl, rfl⟩
  | cons p ps ih =>
    obtain ⟨x, hx, hxlen⟩ := (h p List.mem_cons_self).utf8_char
    obtain ⟨y, hy, hylen⟩ := ih fun q hq => h q (List.mem_cons_of_mem _ hq)
    refine ⟨x ++ y, by simp [encode, hx, hy], ?_⟩
    simp only [size] at hylen
    simp only [List.length_append, size, List.map_cons, List.sum_cons]
    omega

/-- The text can be encoded, and each ill-formed piece takes three bytes then. -/
theorem encode_decodeReplace (bytes : List UInt8) :
    ∃ b, encode (decodeReplace bytes) = some b ∧ b.length = size (pieces bytes) :=
  encode_chars (pieces_ok bytes)

theorem size_le {ps : List Piece} (h : ∀ p ∈ ps, p.Ok) : size ps ≤ 3 * (ps.flatMap Piece.bytes).length := by
  induction ps with
  | nil => simp [size]
  | cons p ps ih =>
    have hrest := ih fun q hq => h q (List.mem_cons_of_mem _ hq)
    have hone : p.size ≤ 3 * p.bytes.length := by
      cases p with
      | scalar bytes =>
        simp only [Piece.size, Piece.bytes]
        omega
      | illFormed bytes =>
        have hpos := List.length_pos_iff.mpr (h _ List.mem_cons_self).1
        simp only [Piece.size, Piece.bytes]
        omega
    simp only [size] at hrest
    simp only [size, List.map_cons, List.sum_cons, List.flatMap_cons, List.length_append]
    omega

theorem size_pieces_le (bytes : List UInt8) : size (pieces bytes) ≤ 3 * bytes.length := by
  have h := size_le (pieces_ok bytes)
  rwa [pieces_bytes] at h

/-- A byte that no character has. -/
theorem pieces_replicate {b : UInt8} (h : width b = 0) (n : ℕ) :
    pieces (List.replicate n b) = List.replicate n (.illFormed [b]) := by
  have hall : feedAll [] (List.replicate n b) = (List.replicate n (.illFormed [b]), []) := by
    induction n with
    | zero => rfl
    | succ n ih =>
      have hone : feed [] b = ([.illFormed [b]], []) := by
        simp only [feed, if_true, start, h]
      simp only [List.replicate_succ, feedAll, hone, ih]
      rfl
  simp [pieces, hall, finish]

end AgentWorkflow.Lib.Utf8
