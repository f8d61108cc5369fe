import AgentWorkflow.Lib.Calendar

/-!
# Numbered names

Names made of a fixed prefix and a decimal number of at least three digits
(Python's `:03d`). The next name is one above the largest number in use, so it is always new.
-/

namespace AgentWorkflow.Lib.Numbered
open AgentWorkflow.Lib.Calendar

def isDigit (c : Char) : Bool := decide ('0' ≤ c) && decide (c ≤ '9')

/-- At least `w` decimal digits of `n`, padded with zeros. -/
def zeroPadded (w n : ℕ) : Text :=
  let ds := Nat.digits 10 n
  ((ds ++ List.replicate (w - ds.length) 0).map digit).reverse

/-- `int(t)` of a text of digits -/
def value (t : Text) : ℕ := t.foldl (fun a c => 10 * a + (c.toNat - 48)) 0

def name (pre : Text) (n : ℕ) : Text := pre ++ zeroPadded 3 n

/-- The number of `re.match(pre + r"(\d+)", t)` -/
def matchNumber (pre t : Text) : Option ℕ :=
  let ds := (t.drop pre.length).takeWhile isDigit
  if pre.isPrefixOf t ∧ ds ≠ [] then some (value ds) else none

/-- The number of `re.fullmatch(pre + r"(\d+)", t)` -/
def fullmatchNumber (pre t : Text) : Option ℕ :=
  let ds := t.drop pre.length
  if pre.isPrefixOf t ∧ ds ≠ [] ∧ ds.all isDigit then some (value ds) else none

theorem isDigit_digit {d : ℕ} (h : d < 10) : isDigit (digit d) = true ∧ (digit d).toNat - 48 = d := by
  interval_cases d <;> decide

theorem value_reverse_map {ds : List ℕ} (h : ∀ d ∈ ds, d < 10) :
    value (ds.map digit).reverse = Nat.ofDigits 10 ds := by
  rw [value, List.foldl_reverse]
  induction ds with
  | nil => rfl
  | cons d ds ih =>
    have hd := (isDigit_digit (h d List.mem_cons_self)).2
    have hrest := ih fun x hx => h x (List.mem_cons_of_mem _ hx)
    simp only [List.map_cons, List.foldr_cons, Nat.ofDigits_cons, hrest, hd]
    exact Nat.add_comm _ _

theorem padded_lt (w n : ℕ) :
    ∀ d ∈ Nat.digits 10 n ++ List.replicate (w - (Nat.digits 10 n).length) 0, d < 10 := by
  intro d hd
  cases List.mem_append.mp hd with
  | inl h => exact Nat.digits_lt_base (by decide) h
  | inr h =>
    rw [List.eq_of_mem_replicate h]
    decide

theorem value_zeroPadded (w n : ℕ) : value (zeroPadded w n) = n := by
  rw [zeroPadded, value_reverse_map (padded_lt w n), Nat.ofDigits_append_replicate_zero, Nat.ofDigits_digits]

theorem zeroPadded_digits (w n : ℕ) : ∀ c ∈ zeroPadded w n, isDigit c = true := by
  intro c hc
  rw [zeroPadded, List.mem_reverse, List.mem_map] at hc
  obtain ⟨d, hd, rfl⟩ := hc
  exact (isDigit_digit (padded_lt w n d hd)).1

theorem zeroPadded_ne_nil (n : ℕ) : zeroPadded 3 n ≠ [] := by
  intro h
  have hlen := congrArg List.length h
  simp only [zeroPadded, List.length_reverse, List.length_map, List.length_append, List.length_replicate,
    List.length_nil] at hlen
  omega

theorem matchNumber_name (pre : Text) (n : ℕ) : matchNumber pre (name pre n) = some n := by
  have hall : (zeroPadded 3 n).takeWhile isDigit = zeroPadded 3 n :=
    List.takeWhile_eq_self_iff.mpr (zeroPadded_digits 3 n)
  simp only [matchNumber, name, List.drop_left, hall]
  rw [if_pos ⟨by simp, zeroPadded_ne_nil n⟩, value_zeroPadded]

theorem fullmatchNumber_name (pre : Text) (n : ℕ) : fullmatchNumber pre (name pre n) = some n := by
  simp only [fullmatchNumber, name, List.drop_left]
  rw [if_pos ⟨by simp, zeroPadded_ne_nil n, List.all_eq_true.mpr (zeroPadded_digits 3 n)⟩, value_zeroPadded]

/-! ### The next name -/

section Next
variable (number : Text → Option ℕ)

def larger (m : ℕ) (t : Text) : ℕ :=
  match number t with
  | some n => max m n
  | none => m

def maxNumber (names : List Text) : ℕ := names.foldl (larger number) 0

theorem le_larger (m : ℕ) (t : Text) : m ≤ larger number m t := by
  unfold larger
  split
  · exact le_max_left _ _
  · exact le_rfl

theorem foldl_max_ge (names : List Text) (m : ℕ) :
    m ≤ names.foldl (larger number) m := by
  induction names generalizing m with
  | nil => exact le_rfl
  | cons t names ih =>
    exact le_trans (le_larger number m t) (ih _)

theorem number_le_foldl {names : List Text} {t : Text} {n : ℕ} (ht : t ∈ names) (hn : number t = some n)
    (m : ℕ) : n ≤ names.foldl (larger number) m := by
  induction names generalizing m with
  | nil => simp at ht
  | cons x names ih =>
    cases List.mem_cons.mp ht with
    | inl heq =>
      subst heq
      have hone : n ≤ larger number m t := by
        rw [larger, hn]
        exact le_max_right m n
      exact le_trans hone (foldl_max_ge number names _)
    | inr hin => exact ih hin _

/-- Whatever reads the numbers back, the next name is not in use. -/
theorem next_not_mem {pre : Text} (hread : ∀ n, number (name pre n) = some n) (names : List Text) :
    name pre (maxNumber number names + 1) ∉ names := by
  intro h
  have hle := number_le_foldl number h (hread _) 0
  have hmax : maxNumber number names + 1 ≤ maxNumber number names := hle
  omega

theorem maxNumber_range {pre : Text} (hread : ∀ n, number (name pre n) = some n) (k : ℕ) :
    maxNumber number ((List.range k).map fun i => name pre (i + 1)) = k := by
  induction k with
  | zero => rfl
  | succ k ih =>
    rw [maxNumber] at ih ⊢
    rw [List.range_succ, List.map_append, List.foldl_append, ih]
    simp only [List.map_singleton, List.foldl_cons, List.foldl_nil, larger, hread]
    omega

end Next

/-! ### Order of the names -/

theorem pad_snoc (w n : ℕ) : pad (w + 1) n = pad w (n / 10) ++ [digit (n % 10)] := by
  induction w generalizing n with
  | zero => simp [pad]
  | succ w ih =>
    have hhead : n / 10 / 10 ^ w = n / 10 ^ (w + 1) := by
      rw [Nat.div_div_eq_div_mul, pow_succ']
    have htail : n % 10 ^ (w + 1) / 10 = n / 10 % 10 ^ w := by
      rw [pow_succ', Nat.mod_mul_right_div_self]
    have hlast : n % 10 ^ (w + 1) % 10 = n % 10 := by
      rw [pow_succ', Nat.mod_mul_right_mod]
    rw [pad, ih, htail, hlast, pad, hhead, List.cons_append]

theorem zeroPadded_snoc {w n : ℕ} (h : n < 10 ^ (w + 1)) :
    zeroPadded (w + 1) n = zeroPadded w (n / 10) ++ [digit (n % 10)] := by
  cases Nat.eq_zero_or_pos n with
  | inl hzero =>
    subst hzero
    simp [zeroPadded, List.replicate_succ]
  | inr hpos => simp [zeroPadded, Nat.digits_def' (by decide : 1 < 10) hpos]

/-- A number that fits the width is padded to it. -/
theorem zeroPadded_eq_pad {w n : ℕ} (h : n < 10 ^ w) : zeroPadded w n = pad w n := by
  induction w generalizing n with
  | zero =>
    obtain rfl : n = 0 := by simpa using h
    rfl
  | succ w ih =>
    have hdiv : n / 10 < 10 ^ w := by
      rw [pow_succ'] at h
      omega
    rw [zeroPadded_snoc h, pad_snoc, ih hdiv]

/-- Numbers below 1000 have names of one length, which sort as the numbers do. -/
theorem name_lt_name (pre : Text) {m n : ℕ} (hmn : m < n) (hn : n < 1000) : name pre m < name pre n := by
  rw [name, name, zeroPadded_eq_pad (w := 3) (by omega), zeroPadded_eq_pad (w := 3) (by omega)]
  have hpad := pad_lt_pad (w := 3) hmn (by omega)
  induction pre with
  | nil => exact hpad
  | cons c pre ih => exact List.cons_lt_cons_iff.mpr (Or.inr ⟨rfl, ih⟩)

end AgentWorkflow.Lib.Numbered
