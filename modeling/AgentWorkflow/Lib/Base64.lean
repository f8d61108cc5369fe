import Mathlib

/-!
# Base64

Bytes as text of 64 letters, three bytes in four units. Reading skips what is no letter.
-/

namespace AgentWorkflow.Lib.Base64

/-- The letters of 0 to 63. -/
def letter (n : ℕ) : UInt16 :=
  UInt16.ofNat (if n < 26 then 0x41 + n else if n < 52 then 0x47 + n else if n < 62 then n - 4 else if n = 62 then 0x2B else 0x2F)

/-- The value of a letter; `-` and `_` stand for the last two as well. -/
def value (c : UInt16) : Option ℕ :=
  if 0x41 ≤ c ∧ c ≤ 0x5A then some (c.toNat - 0x41)
  else if 0x61 ≤ c ∧ c ≤ 0x7A then some (c.toNat - 0x47)
  else if 0x30 ≤ c ∧ c ≤ 0x39 then some (c.toNat + 4)
  else if c = 0x2B ∨ c = 0x2D then some 62
  else if c = 0x2F ∨ c = 0x5F then some 63
  else none

/-- `toString('base64')` -/
def encode : List UInt8 → List UInt16
  | [] => []
  | [a] => [letter (a.toNat / 4), letter (a.toNat % 4 * 16), 0x3D, 0x3D]
  | [a, b] => [letter (a.toNat / 4), letter (a.toNat % 4 * 16 + b.toNat / 16), letter (b.toNat % 16 * 4), 0x3D]
  | a :: b :: c :: rest =>
    letter (a.toNat / 4) :: letter (a.toNat % 4 * 16 + b.toNat / 16) :: letter (b.toNat % 16 * 4 + c.toNat / 64) ::
      letter (c.toNat % 64) :: encode rest

def bytes : List ℕ → List UInt8
  | [] | [_] => []
  | [i, j] => [UInt8.ofNat (i * 4 + j / 16)]
  | [i, j, k] => [UInt8.ofNat (i * 4 + j / 16), UInt8.ofNat (j % 16 * 16 + k / 4)]
  | i :: j :: k :: l :: rest =>
    UInt8.ofNat (i * 4 + j / 16) :: UInt8.ofNat (j % 16 * 16 + k / 4) :: UInt8.ofNat (k % 4 * 64 + l) :: bytes rest

/-- `Buffer.from(text, 'base64')` -/
def decode (text : List UInt16) : List UInt8 := bytes ((text.takeWhile fun c => decide (c ≠ 0x3D)).filterMap value)

theorem letter_spec {n : ℕ} (h : n < 64) : letter n ≠ 0x3D ∧ value (letter n) = some n := by
  have hall : ∀ n < 64, letter n ≠ 0x3D ∧ value (letter n) = some n := by decide
  exact hall n h

theorem decode_letter {n : ℕ} (h : n < 64) (text : List UInt16) :
    ((letter n :: text).takeWhile fun c => decide (c ≠ 0x3D)).filterMap value =
      n :: (text.takeWhile fun c => decide (c ≠ 0x3D)).filterMap value := by
  obtain ⟨hne, hvalue⟩ := letter_spec h
  rw [List.takeWhile_cons_of_pos (p := fun c : UInt16 => decide (c ≠ 0x3D)) (decide_eq_true hne), List.filterMap_cons, hvalue]

theorem decode_end (text : List UInt16) : ((0x3D :: text).takeWhile fun c => decide (c ≠ (0x3D : UInt16))).filterMap value = [] := by
  rw [List.takeWhile_cons_of_neg (by decide)]
  rfl

theorem ofNat_eq {n : ℕ} {a : UInt8} (h : n = a.toNat) : UInt8.ofNat n = a := by
  rw [h]
  exact UInt8.ofNat_toNat

theorem decode_encode (l : List UInt8) : decode (encode l) = l := by
  unfold decode
  induction l using encode.induct with
  | case1 => rfl
  | case2 a =>
    have ha := a.toNat_lt
    rw [encode, decode_letter (by omega), decode_letter (by omega), decode_end, bytes]
    rw [ofNat_eq (a := a) (by omega)]
  | case3 a b =>
    have ha := a.toNat_lt
    have hb := b.toNat_lt
    rw [encode, decode_letter (by omega), decode_letter (by omega), decode_letter (by omega), decode_end, bytes]
    rw [ofNat_eq (a := a) (by omega), ofNat_eq (a := b) (by omega)]
  | case4 a b c rest ih =>
    have ha := a.toNat_lt
    have hb := b.toNat_lt
    have hc := c.toNat_lt
    rw [encode, decode_letter (by omega), decode_letter (by omega), decode_letter (by omega), decode_letter (by omega), bytes, ih]
    rw [ofNat_eq (a := a) (by omega), ofNat_eq (a := b) (by omega), ofNat_eq (a := c) (by omega)]

theorem encode_ne_nil {l : List UInt8} (h : l ≠ []) : encode l ≠ [] := by
  intro hnil
  have hdecode := decode_encode l
  rw [hnil] at hdecode
  exact h hdecode.symm

theorem letter_ascii (n : ℕ) : letter n < 0x80 := by
  unfold letter
  rw [UInt16.lt_iff_toNat_lt, UInt16.toNat_ofNat']
  have hsmall : (if n < 26 then 0x41 + n else if n < 52 then 0x47 + n else if n < 62 then n - 4 else if n = 62 then 0x2B else 0x2F) < 128 := by
    split_ifs <;> omega
  exact lt_of_le_of_lt (Nat.mod_le _ _) hsmall

theorem encode_ascii (l : List UInt8) : ∀ c ∈ encode l, c < 0x80 := by
  induction l using encode.induct with
  | case1 => exact fun c hc => nomatch hc
  | case2 a =>
    simp only [encode, List.forall_mem_cons]
    exact ⟨letter_ascii _, letter_ascii _, by decide, by decide, fun c hc => nomatch hc⟩
  | case3 a b =>
    simp only [encode, List.forall_mem_cons]
    exact ⟨letter_ascii _, letter_ascii _, letter_ascii _, by decide, fun c hc => nomatch hc⟩
  | case4 a b c rest ih =>
    simp only [encode, List.forall_mem_cons]
    exact ⟨letter_ascii _, letter_ascii _, letter_ascii _, letter_ascii _, ih⟩

end AgentWorkflow.Lib.Base64
