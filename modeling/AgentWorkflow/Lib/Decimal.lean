import AgentWorkflow.Lib.Binary64

/-!
# Decimal numerals

Writing integers and decimals `c * 10 ^ e` as JSON numerals over any code units, with the
point inside or next to the digits or with an exponent, and the number a numeral denotes.
`unit` gives the unit of an ASCII code, `code` the code of a unit.
-/

namespace AgentWorkflow.Lib.Decimal
open JsonText

universe u
variable {α : Type u}

/-! ### Writing -/

section Write
variable (unit : ℕ → α)

/-- The decimal digits, most significant first. -/
def digits (n : ℕ) : List α :=
  if n = 0 then [unit 0x30] else ((Nat.digits 10 n).map fun d => unit (0x30 + d)).reverse

def zeros (n : ℕ) : List α := List.replicate n (unit 0x30)

def signText (negative : Bool) : List α := if negative then [unit 0x2D] else []

def integer (n : ℤ) : Numeral α := ⟨signText unit (decide (n < 0)), digits unit n.natAbs, [], []⟩

/-- `e`, a sign and at least `width` digits. -/
def exponentText (width : ℕ) (x : ℤ) : List α :=
  unit 0x65 :: ((if x < 0 then [unit 0x2D] else [unit 0x2B]) ++
    (zeros unit (width - (digits unit x.natAbs).length) ++ digits unit x.natAbs))

/-- How a program writes a number: the exponents it writes, and whether a number
without fraction ends with `.0`. -/
structure Style where
  scientific : Bool
  width : ℕ
  dotZero : Bool

def write (style : Style) (negative : Bool) (c : ℕ) (e : ℤ) : Numeral α :=
  let ds := digits unit c
  let point : ℤ := ds.length + e
  if style.scientific then
    ⟨signText unit negative, ds.take 1, if ds.drop 1 = [] then [] else unit 0x2E :: ds.drop 1,
      exponentText unit style.width (point - 1)⟩
  else if point ≤ 0 then
    ⟨signText unit negative, [unit 0x30], unit 0x2E :: (zeros unit (-point).toNat ++ ds), []⟩
  else if point < ds.length then
    ⟨signText unit negative, ds.take point.toNat, unit 0x2E :: ds.drop point.toNat, []⟩
  else
    ⟨signText unit negative, ds ++ zeros unit e.toNat, if style.dotZero then [unit 0x2E, unit 0x30] else [], []⟩

/-- The shortest decimal of a binary64 word; zero has no exponent. -/
def writeWord (style : Style) (negative : Bool) (w : ℕ) : Numeral α :=
  write unit style negative (Binary64.shortest w).1
    (if (Binary64.shortest w).1 = 0 then 0 else (Binary64.shortest w).2)

end Write

/-! ### Reading -/

section Read
variable (code : α → ℕ)

def readDigits (t : List α) : ℕ := Nat.ofDigits 10 (t.map fun c => code c - 0x30).reverse

/-- What follows the `e`. -/
def readExponent (t : List α) : ℤ :=
  match t.drop 1 with
  | [] => 0
  | c :: t =>
    if code c = 0x2D then -readDigits code t
    else if code c = 0x2B then readDigits code t
    else readDigits code (c :: t)

/-- The number a numeral denotes, without its sign. -/
def magnitude (n : Numeral α) : ℚ :=
  Binary64.decimal (readDigits code (n.int ++ n.frac.drop 1)) (readExponent code n.exp - (n.frac.drop 1).length)

def exactValue (n : Numeral α) : ℚ := if n.sign = [] then magnitude code n else -magnitude code n

end Read

/-! ### What is written -/

section Spec
variable {unit : ℕ → α} {code : α → ℕ}

theorem readDigits_append (s t : List α) :
    readDigits code (s ++ t) = readDigits code s * 10 ^ t.length + readDigits code t := by
  unfold readDigits
  rw [List.map_append, List.reverse_append, Nat.ofDigits_append, List.length_reverse, List.length_map]
  ring

theorem digits_append {s t : List α} (hs : ∀ c ∈ s, isDigit code c = true)
    (ht : ∀ c ∈ t, isDigit code c = true) : ∀ c ∈ s ++ t, isDigit code c = true := by
  intro c hc
  rcases List.mem_append.mp hc with h | h
  · exact hs c h
  · exact ht c h

theorem digits_ne_nil (unit : ℕ → α) (n : ℕ) : digits unit n ≠ [] := by
  unfold digits
  split
  · simp
  · next h =>
    have hne : Nat.digits 10 n ≠ [] := Nat.digits_ne_nil_iff_ne_zero.mpr h
    simp [hne]

theorem abs_exactValue (n : Numeral α) : |exactValue code n| = magnitude code n := by
  have hpos : 0 ≤ magnitude code n := Binary64.decimal_nonneg ..
  unfold exactValue
  split
  · exact abs_of_nonneg hpos
  · rw [abs_neg, abs_of_nonneg hpos]

theorem signText_eq_nil {negative : Bool} : signText unit negative = [] ↔ negative = false := by
  cases negative <;> simp [signText]

variable (hu : Ascii code unit)
include hu

theorem digit_spec {d : ℕ} (h : d < 10) : isDigit code (unit (0x30 + d)) = true ∧ code (unit (0x30 + d)) - 0x30 = d := by
  have hcode : code (unit (0x30 + d)) = 0x30 + d := hu _ (by omega)
  simp only [isDigit, decide_eq_true_eq, hcode]
  omega

theorem zero_isDigit : isDigit code (unit 0x30) = true := (digit_spec hu (d := 0) (by decide)).1

theorem digits_isDigit (n : ℕ) : ∀ c ∈ digits unit n, isDigit code c = true := by
  intro c hc
  unfold digits at hc
  split at hc
  · rw [List.mem_singleton] at hc
    subst hc
    exact zero_isDigit hu
  · rw [List.mem_reverse, List.mem_map] at hc
    obtain ⟨d, hd, rfl⟩ := hc
    exact (digit_spec hu (Nat.digits_lt_base (by decide) hd)).1

theorem zeros_isDigit (n : ℕ) : ∀ c ∈ zeros unit n, isDigit code c = true := by
  intro c hc
  rw [List.eq_of_mem_replicate hc]
  exact zero_isDigit hu

theorem readDigits_zero : readDigits code [unit 0x30] = 0 := by
  simp [readDigits, hu 0x30 (by decide)]

theorem readDigits_digits (n : ℕ) : readDigits code (digits unit n) = n := by
  unfold digits
  split
  · next h =>
    rw [readDigits_zero hu, h]
  · have hvalues : (Nat.digits 10 n).map ((fun c => code c - 0x30) ∘ fun d => unit (0x30 + d)) = Nat.digits 10 n := by
      refine (List.map_congr_left fun d hd => ?_).trans (List.map_id _)
      exact (digit_spec hu (Nat.digits_lt_base (by decide) hd)).2
    unfold readDigits
    rw [List.map_reverse, List.reverse_reverse, List.map_map, hvalues]
    exact Nat.ofDigits_digits 10 n

theorem readDigits_zeros (n : ℕ) : readDigits code (zeros unit n) = 0 := by
  induction n with
  | zero => rfl
  | succ n ih =>
    have hsplit : zeros unit (n + 1) = [unit 0x30] ++ zeros unit n := rfl
    rw [hsplit, readDigits_append, ih, readDigits_zero hu]
    omega

/-- No leading zero, but for zero itself. -/
theorem digits_head (n : ℕ) :
    (n = 0 ∧ digits unit n = [unit 0x30]) ∨ ∃ c t, digits unit n = c :: t ∧ code c ≠ 0x30 := by
  unfold digits
  split
  · next h => exact Or.inl ⟨h, rfl⟩
  · next h =>
    have hne : Nat.digits 10 n ≠ [] := Nat.digits_ne_nil_iff_ne_zero.mpr h
    have hlast := Nat.getLast_digit_ne_zero 10 h
    have hlt := Nat.digits_lt_base (b := 10) (m := n) (by decide) (List.getLast_mem hne)
    refine Or.inr ⟨unit (0x30 + (Nat.digits 10 n).getLast hne),
      ((Nat.digits 10 n).dropLast.map fun d => unit (0x30 + d)).reverse, ?_, ?_⟩
    · conv_lhs => rw [← List.dropLast_append_getLast hne]
      rw [List.map_append, List.reverse_append]
      rfl
    · have hvalue := (digit_spec hu hlt).2
      omega

theorem digits_take {n k : ℕ} (hk : k ≠ 0) :
    (∃ c, (digits unit n).take k = [c] ∧ code c = 0x30) ∨
      ∃ c t, (digits unit n).take k = c :: t ∧ code c ≠ 0x30 ∧ Digits code (c :: t) := by
  obtain ⟨k, rfl⟩ := Nat.exists_eq_succ_of_ne_zero hk
  have hall := digits_isDigit hu n
  rcases digits_head hu n with ⟨-, h⟩ | ⟨c, t, h, hc⟩
  · rw [h]
    exact Or.inl ⟨unit 0x30, by simp, hu _ (by decide)⟩
  · rw [h] at hall ⊢
    refine Or.inr ⟨c, t.take k, rfl, hc, by simp, fun d hd => hall d ?_⟩
    rcases List.mem_cons.mp hd with rfl | hd
    · exact List.mem_cons_self ..
    · exact List.mem_cons_of_mem _ (List.mem_of_mem_take hd)

theorem readExponent_text (width : ℕ) (x : ℤ) : readExponent code (exponentText unit width x) = x := by
  have hread : readDigits code (zeros unit (width - (digits unit x.natAbs).length) ++ digits unit x.natAbs) =
      x.natAbs := by
    rw [readDigits_append, readDigits_zeros hu, readDigits_digits hu]
    omega
  have hminus : code (unit 0x2D) = 0x2D := hu _ (by decide)
  have hplus : code (unit 0x2B) = 0x2B := hu _ (by decide)
  unfold readExponent exponentText
  by_cases h : x < 0
  · simp only [if_pos h, List.drop_succ_cons, List.drop_zero, List.cons_append, List.nil_append, hminus, if_true,
      hread]
    omega
  · have hnot : ¬ code (unit 0x2B) = 0x2D := hu.ne (by decide) (by decide)
    simp only [if_neg h, List.drop_succ_cons, List.drop_zero, List.cons_append, List.nil_append, if_neg hnot,
      if_pos hplus, hread]
    omega

theorem exponentText_ok (width : ℕ) (x : ℤ) : ∃ c s t, exponentText unit width x = c :: (s ++ t) ∧
    (code c = 0x65 ∨ code c = 0x45) ∧ (s = [] ∨ ∃ d, s = [d] ∧ (code d = 0x2B ∨ code d = 0x2D)) ∧ Digits code t := by
  refine ⟨_, _, _, rfl, Or.inl (hu _ (by decide)), ?_, ?_,
    digits_append (zeros_isDigit hu _) (digits_isDigit hu _)⟩
  · split
    · exact Or.inr ⟨_, rfl, Or.inr (hu _ (by decide))⟩
    · exact Or.inr ⟨_, rfl, Or.inl (hu _ (by decide))⟩
  · have hne := digits_ne_nil unit x.natAbs
    simp [hne]

theorem signText_ok (negative : Bool) :
    signText unit negative = [] ∨ ∃ c, signText unit negative = [c] ∧ code c = 0x2D := by
  cases negative with
  | false => exact Or.inl rfl
  | true => exact Or.inr ⟨_, rfl, hu _ (by decide)⟩

theorem integer_ok (n : ℤ) : (integer unit n).Ok code := by
  refine ⟨signText_ok hu _, ?_, Or.inl rfl, Or.inl rfl⟩
  have hall := digits_isDigit hu n.natAbs
  unfold integer
  rcases digits_head hu n.natAbs with ⟨-, h⟩ | ⟨c, t, h, hc⟩
  · exact Or.inl ⟨_, h, hu _ (by decide)⟩
  · rw [h] at hall
    exact Or.inr ⟨c, t, h, hc, by simp, hall⟩

theorem integer_value (n : ℤ) : exactValue code (integer unit n) = n := by
  have hmag : magnitude code (integer unit n) = n.natAbs := by
    unfold magnitude integer
    dsimp only
    rw [List.drop_nil, List.append_nil, readDigits_digits hu]
    simp [Binary64.decimal, readExponent]
  unfold exactValue
  rw [hmag]
  simp only [integer, signText_eq_nil, decide_eq_false_iff_not]
  split
  · next h =>
    rw [← Int.cast_natCast, Int.natAbs_of_nonneg (not_lt.mp h)]
  · next h =>
    rw [← Int.cast_natCast, Int.ofNat_natAbs_of_nonpos (le_of_lt (not_not.mp h))]
    push_cast
    ring

theorem write_ok (style : Style) (negative : Bool) {c : ℕ} {e : ℤ} (hzero : c = 0 → e = 0) :
    (write unit style negative c e).Ok code := by
  have hall := digits_isDigit hu c
  have hdrop : ∀ k, ∀ d ∈ (digits unit c).drop k, isDigit code d = true :=
    fun k d hd => hall d (List.mem_of_mem_drop hd)
  have hpoint : code (unit 0x2E) = 0x2E := hu _ (by decide)
  have hdigit : code (unit 0x30) = 0x30 := hu _ (by decide)
  unfold write
  dsimp only
  split
  · refine ⟨signText_ok hu _, digits_take hu (by decide), ?_, Or.inr (exponentText_ok hu _ _)⟩
    dsimp only
    split
    · exact Or.inl rfl
    · next hne => exact Or.inr ⟨_, _, rfl, hpoint, hne, hdrop 1⟩
  · split
    · refine ⟨signText_ok hu _, Or.inl ⟨_, rfl, hdigit⟩, Or.inr ⟨_, _, rfl, hpoint, ?_, ?_⟩, Or.inl rfl⟩
      · simp [digits_ne_nil]
      · exact digits_append (zeros_isDigit hu _) hall
    · next hpos =>
      split
      · next hlt =>
        refine ⟨signText_ok hu _, digits_take hu (by omega), Or.inr ⟨_, _, rfl, hpoint, ?_, hdrop _⟩, Or.inl rfl⟩
        intro hnil
        rw [List.drop_eq_nil_iff] at hnil
        omega
      · refine ⟨signText_ok hu _, ?_, ?_, Or.inl rfl⟩
        · rcases digits_head hu c with ⟨h, hd⟩ | ⟨d, t, hd, hne⟩
          · rw [hzero h, hd]
            exact Or.inl ⟨_, rfl, hdigit⟩
          · have hboth := digits_append hall (zeros_isDigit hu e.toNat)
            rw [hd] at hboth
            exact Or.inr ⟨d, t ++ zeros unit e.toNat, by rw [hd]; rfl, hne, by simp, hboth⟩
        · dsimp only
          split
          · exact Or.inr ⟨_, [unit 0x30], rfl, hpoint, by simp, by simpa using zero_isDigit hu⟩
          · exact Or.inl rfl

/-- A numeral denotes the decimal it was written for. -/
theorem magnitude_write (style : Style) (negative : Bool) (c : ℕ) (e : ℤ) :
    magnitude code (write unit style negative c e) = Binary64.decimal c e := by
  have hread := readDigits_digits hu c
  have hlen : 0 < (digits unit c).length := List.length_pos_iff.mpr (digits_ne_nil unit c)
  have hnone : readExponent code [] = 0 := rfl
  unfold magnitude write
  dsimp only
  split
  · have hfrac : (if (digits unit c).drop 1 = [] then [] else unit 0x2E :: (digits unit c).drop 1).drop 1 =
        (digits unit c).drop 1 := by
      split
      · next h =>
        rw [h]
        rfl
      · rfl
    dsimp only
    rw [hfrac, List.take_append_drop, hread, readExponent_text hu, List.length_drop]
    congr 1
    omega
  · split
    · next hpos =>
      have hzero : readDigits code ([unit 0x30] ++ zeros unit (-((digits unit c).length + e)).toNat) = 0 :=
        readDigits_zeros hu ((-((digits unit c).length + e)).toNat + 1)
      have hlength : (zeros unit (-((digits unit c).length + e)).toNat).length =
          (-((digits unit c).length + e)).toNat := List.length_replicate ..
      dsimp only
      rw [List.drop_succ_cons, List.drop_zero, ← List.append_assoc, readDigits_append, hread, hnone, hzero,
        List.length_append, hlength, Nat.zero_mul, Nat.zero_add]
      congr 1
      omega
    · next hpos =>
      split
      · next hlt =>
        dsimp only
        rw [List.drop_succ_cons, List.drop_zero, List.take_append_drop, hread, hnone, List.length_drop]
        congr 1
        omega
      · next hge =>
        have hlength : (zeros unit e.toNat).length = e.toNat := List.length_replicate ..
        dsimp only
        split
        · have htail : readDigits code (zeros unit e.toNat ++ [unit 0x30]) = 0 := by
            rw [readDigits_append, readDigits_zeros hu, readDigits_zero hu]
            rfl
          rw [List.drop_succ_cons, List.drop_zero, List.append_assoc, readDigits_append, htail, hread, hnone,
            List.length_append, hlength, Nat.add_zero, Binary64.decimal_mul_pow]
          congr 1
          simp only [List.length_singleton]
          omega
        · rw [List.drop_nil, List.append_nil, readDigits_append, readDigits_zeros hu, hread, hnone, hlength,
            Nat.add_zero, Binary64.decimal_mul_pow]
          congr 1
          simp only [List.length_nil]
          omega

theorem writeWord_ok (style : Style) (negative : Bool) (w : ℕ) : (writeWord unit style negative w).Ok code :=
  write_ok hu style negative fun h => if_pos h

theorem magnitude_writeWord (style : Style) (negative : Bool) (w : ℕ) :
    magnitude code (writeWord unit style negative w) =
      Binary64.decimal (Binary64.shortest w).1 (Binary64.shortest w).2 := by
  unfold writeWord
  rw [magnitude_write hu]
  generalize Binary64.shortest w = d
  split
  · next h => simp [h, Binary64.decimal]
  · rfl

omit hu in
theorem write_sign (style : Style) (negative : Bool) (c : ℕ) (e : ℤ) :
    (write unit style negative c e).sign = signText unit negative := by
  unfold write
  dsimp only
  split_ifs <;> rfl

omit hu in
/-- With `.0`, no text looks like an integer's. -/
theorem write_not_integer {style : Style} (hdot : style.dotZero = true) (negative : Bool) (c : ℕ) (e : ℤ) :
    ¬ ((write unit style negative c e).frac = [] ∧ (write unit style negative c e).exp = []) := by
  unfold write
  dsimp only
  split_ifs <;> simp [exponentText]

omit hu in
theorem writeWord_sign (style : Style) (negative : Bool) (w : ℕ) :
    (writeWord unit style negative w).sign = signText unit negative :=
  write_sign ..

theorem exactValue_writeWord (style : Style) (negative : Bool) (w : ℕ) :
    exactValue code (writeWord unit style negative w) =
      if negative then -Binary64.decimal (Binary64.shortest w).1 (Binary64.shortest w).2
      else Binary64.decimal (Binary64.shortest w).1 (Binary64.shortest w).2 := by
  rw [exactValue, writeWord_sign, magnitude_writeWord hu]
  cases negative with
  | false => simp [signText]
  | true => simp [signText]

end Spec

end AgentWorkflow.Lib.Decimal
