import AgentWorkflow.Lib.JsonText

/-!
# Binary64 numbers and their decimal texts

A finite magnitude is its word, the bit pattern without the sign; the order of
words is the order of the numbers. Reading a decimal rounds to the nearest word,
ties to even; writing takes the shortest decimal that reads back, and of those
the closest. What is written is read back as the same word.
-/

namespace AgentWorkflow.Lib.Binary64
open JsonText

/-! ### Words -/

/-- The least number that is not zero is `2 ^ -emin`, the unit of all of them. -/
def emin : ℕ := 1074

/-- The number of a word in units. -/
def units (w : ℕ) : ℕ :=
  if w < 2 ^ 52 then w else (2 ^ 52 + w % 2 ^ 52) * 2 ^ (w / 2 ^ 52 - 1)

/-- The first word that is no number. -/
def infinity : ℕ := 0x7FF * 2 ^ 52

/-- The word nearest to `num / den` units. -/
def nearest (num den : ℕ) : ℕ :=
  let e := Nat.log2 (num / den) - 52
  let unit := den * 2 ^ e
  let m := num / unit
  let r := num % unit
  (if 2 * r < unit ∨ 2 * r = unit ∧ m % 2 = 0 then m else m + 1) + e * 2 ^ 52

/-- The word of a number that is not negative, unless it rounds to infinity. -/
def ofRat (q : ℚ) : Option ℕ :=
  let t := q * 2 ^ emin
  let w := nearest t.num.toNat t.den
  if w < infinity then some w else none

theorem nearest_exact {u e : ℕ} (he : Nat.log2 u - 52 = e) (hdvd : 2 ^ e ∣ u) :
    nearest u 1 = u / 2 ^ e + e * 2 ^ 52 := by
  have hmod : u % 2 ^ e = 0 := Nat.mod_eq_zero_of_dvd hdvd
  have hpos : 0 < 2 ^ e := by positivity
  simp only [nearest, Nat.div_one, Nat.one_mul, he, hmod]
  rw [if_pos (Or.inl (by omega))]

theorem log2_units (w : ℕ) :
    Nat.log2 ((2 ^ 52 + w % 2 ^ 52) * 2 ^ (w / 2 ^ 52 - 1)) = 52 + (w / 2 ^ 52 - 1) := by
  have hlt : w % 2 ^ 52 < 2 ^ 52 := Nat.mod_lt _ (by norm_num)
  have hpos : 0 < 2 ^ (w / 2 ^ 52 - 1) := by positivity
  rw [Nat.log2_eq_iff (by positivity)]
  constructor
  · rw [pow_add]
    exact Nat.mul_le_mul_right _ (by omega)
  · rw [show 52 + (w / 2 ^ 52 - 1) + 1 = 53 + (w / 2 ^ 52 - 1) by omega, pow_add]
    exact Nat.mul_lt_mul_of_pos_right (by omega) hpos

/-- A number that has a word is rounded to it. -/
theorem nearest_units (w : ℕ) : nearest (units w) 1 = w := by
  unfold units
  split
  · next hw =>
    have hlog : Nat.log2 w - 52 = 0 := by
      rcases Nat.eq_zero_or_pos w with rfl | hpos
      · rfl
      · have h := (Nat.log2_lt hpos.ne').mpr hw
        omega
    rw [nearest_exact hlog (by simp)]
    simp
  · next hw =>
    have hlog := log2_units w
    have hdiv := Nat.div_add_mod w (2 ^ 52)
    have hpos : 0 < w / 2 ^ 52 := Nat.div_pos (Nat.not_lt.mp hw) (by norm_num)
    rw [nearest_exact (e := w / 2 ^ 52 - 1) (by rw [hlog]; omega) (Dvd.intro_left _ rfl),
      Nat.mul_div_cancel _ (by positivity)]
    omega

/-- The number a word stands for. -/
def toRat (w : ℕ) : ℚ := units w / 2 ^ emin

theorem ofRat_toRat {w : ℕ} (hw : w < infinity) : ofRat (toRat w) = some w := by
  have ht : toRat w * 2 ^ emin = (units w : ℚ) := by
    unfold toRat
    exact div_mul_cancel₀ _ (by positivity)
  unfold ofRat
  rw [ht]
  simp only [Rat.num_natCast, Int.toNat_natCast, Rat.den_natCast, nearest_units, if_pos hw]

/-! ### Decimals -/

def decimal (c : ℕ) (e : ℤ) : ℚ := c * 10 ^ e

theorem decimal_mul_pow (c n : ℕ) (e : ℤ) : decimal (c * 10 ^ n) e = decimal c (e + n) := by
  unfold decimal
  rw [zpow_add₀ (by norm_num), zpow_natCast]
  push_cast
  ring

/-- All digits of a word: the number is this many `10 ^ -emin`. -/
def exact (w : ℕ) : ℕ := units w * 5 ^ emin

theorem decimal_exact (w : ℕ) : decimal (exact w) (-emin) = toRat w := by
  have hten : (10 : ℚ) ^ (emin : ℤ) = 2 ^ emin * 5 ^ emin := by
    rw [zpow_natCast, ← mul_pow]
    norm_num
  unfold decimal exact toRat
  rw [zpow_neg, hten]
  push_cast
  field_simp

/-- `exact w` cut off, or rounded up, to `n` of its `len` digits: whichever reads
back, and the closer one of two. -/
def candidate (w len n : ℕ) : Option (ℕ × ℤ) :=
  let unit := 10 ^ (len - n)
  let e : ℤ := (len - n : ℕ) - emin
  let c := exact w / unit
  let r := exact w % unit
  let low := ofRat (decimal c e) = some w
  let high := ofRat (decimal (c + 1) e) = some w
  if low ∧ (¬ high ∨ 2 * r < unit ∨ 2 * r = unit ∧ c % 2 = 0) then some (c, e)
  else if high then some (c + 1, e)
  else none

/-- Without the zeros at the end. -/
def strip : ℕ → ℕ → ℤ → ℕ × ℤ
  | 0, c, e => (c, e)
  | n + 1, c, e => if c % 10 = 0 ∧ c ≠ 0 then strip n (c / 10) (e + 1) else (c, e)

def digitCount (w : ℕ) : ℕ := (Nat.digits 10 (exact w)).length

def candidates (w : ℕ) : Option (ℕ × ℤ) :=
  (List.range 17).findSome? fun n => candidate w (digitCount w) (n + 1)

/-- The candidate with the fewest digits. Seventeen digits always do; the default
makes the function total. -/
def shortestCandidate (w : ℕ) : ℕ × ℤ := (candidates w).getD (exact w, -emin)

/-- The shortest decimal of a word. -/
def shortest (w : ℕ) : ℕ × ℤ :=
  strip (digitCount w) (shortestCandidate w).1 (shortestCandidate w).2

theorem decimal_strip (n c : ℕ) (e : ℤ) : decimal (strip n c e).1 (strip n c e).2 = decimal c e := by
  induction n generalizing c e with
  | zero => rfl
  | succ n ih =>
    unfold strip
    split
    · next h =>
      rw [ih]
      have hc : c = c / 10 * 10 ^ 1 := by omega
      conv_rhs => rw [hc]
      rw [decimal_mul_pow]
      rfl
    · rfl

theorem ofRat_candidate {w len n : ℕ} {d : ℕ × ℤ} (h : candidate w len n = some d) :
    ofRat (decimal d.1 d.2) = some w := by
  unfold candidate at h
  dsimp only at h
  split at h
  · next hlow =>
    cases h
    exact hlow.1
  · split at h
    · next hhigh =>
      cases h
      exact hhigh
    · cases h

theorem ofRat_shortestCandidate {w : ℕ} (hw : w < infinity) :
    ofRat (decimal (shortestCandidate w).1 (shortestCandidate w).2) = some w := by
  rw [shortestCandidate]
  cases h : candidates w with
  | some d =>
    obtain ⟨n, -, hn⟩ := List.exists_of_findSome?_eq_some h
    exact ofRat_candidate hn
  | none =>
    rw [Option.getD_none, decimal_exact]
    exact ofRat_toRat hw

/-- The shortest decimal reads back as the word it is written for. -/
theorem ofRat_shortest {w : ℕ} (hw : w < infinity) : ofRat (decimal (shortest w).1 (shortest w).2) = some w := by
  unfold shortest
  rw [decimal_strip]
  exact ofRat_shortestCandidate hw

theorem ofRat_lt {q : ℚ} {w : ℕ} (h : ofRat q = some w) : w < infinity := by
  unfold ofRat at h
  dsimp only at h
  split at h
  · next hlt =>
    cases h
    exact hlt
  · cases h

theorem decimal_nonneg (c : ℕ) (e : ℤ) : 0 ≤ decimal c e := by
  unfold decimal
  positivity

-- Numbers of hundreds of digits stand behind these; the lemmas above are what a proof needs.
attribute [irreducible] toRat ofRat shortest

end AgentWorkflow.Lib.Binary64
