import AgentWorkflow.Lib.Texts

/-!
# Calendar dates and their ISO text

The proleptic Gregorian calendar in the form Python's `datetime` uses it: an
instant is a number of microseconds since 0001-01-01T00:00:00 and is rendered
with `isoformat`, which drops the fraction when it is zero. The main result is
`isoformat_lt_isoformat`: the texts sort, character by character, as the
instants do.
-/

namespace AgentWorkflow.Lib.Calendar

/-- Text as a list of code points. Its order is the bytewise order of the UTF-8
encodings. -/
abbrev Text := List Char

instance neZero_sixty : NeZero 60 := ⟨by decide⟩

/-! ### Fixed-width decimal fields -/

/-- The decimal digit `d` (`d < 10`). -/
def digit (d : ℕ) : Char := Char.ofNat (48 + d)

theorem digit_lt {a b : ℕ} (hab : a < b) (hb : b < 10) : digit a < digit b := by
  interval_cases b <;> interval_cases a <;> decide

/-- `w` decimal digits of `n`, most significant first (`%0wd`). -/
def pad : ℕ → ℕ → Text
  | 0, _ => []
  | w + 1, n => digit (n / 10 ^ w % 10) :: pad w (n % 10 ^ w)

theorem pad_length (w n : ℕ) : (pad w n).length = w := by
  induction w generalizing n with
  | zero => rfl
  | succ w ih => simp [pad, ih]

/-- Fields of one width decide the comparison before anything that follows. -/
theorem append_lt_of_length {s t x y : Text} (hlen : s.length = t.length) (h : s < t) :
    s ++ x < t ++ y := by
  induction s generalizing t with
  | nil =>
    cases t with
    | nil => exact absurd h (lt_irrefl _)
    | cons b t => simp at hlen
  | cons a s ih =>
    cases t with
    | nil => simp at hlen
    | cons b t =>
      simp only [List.length_cons, Nat.add_right_cancel_iff] at hlen
      rw [List.cons_append, List.cons_append, List.cons_lt_cons_iff]
      rcases List.cons_lt_cons_iff.mp h with hab | ⟨hab, hst⟩
      · exact Or.inl hab
      · exact Or.inr ⟨hab, ih hlen hst⟩

theorem pad_lt_pad {w a b : ℕ} (hab : a < b) (hb : b < 10 ^ w) : pad w a < pad w b := by
  induction w generalizing a b with
  | zero =>
    simp only [pow_zero, Nat.lt_one_iff] at hb
    omega
  | succ w ih =>
    have hpos : 0 < 10 ^ w := Nat.pos_of_ne_zero (by positivity)
    have hqb : b / 10 ^ w < 10 := by
      rw [Nat.div_lt_iff_lt_mul hpos, ← pow_succ']
      exact hb
    have hqa : a / 10 ^ w ≤ b / 10 ^ w := Nat.div_le_div_right hab.le
    simp only [pad]
    rw [List.cons_lt_cons_iff, Nat.mod_eq_of_lt hqb, Nat.mod_eq_of_lt (by omega)]
    rcases Nat.lt_or_ge (a / 10 ^ w) (b / 10 ^ w) with hq | hq
    · exact Or.inl (digit_lt hq hqb)
    · have heq : a / 10 ^ w = b / 10 ^ w := by omega
      refine Or.inr ⟨by rw [heq], ih ?_ (Nat.mod_lt _ hpos)⟩
      have ha := Nat.div_add_mod a (10 ^ w)
      have hb' := Nat.div_add_mod b (10 ^ w)
      rw [heq] at ha
      omega

theorem pad_append_lt {w a b : ℕ} (hab : a < b) (hb : b < 10 ^ w) (x y : Text) :
    pad w a ++ x < pad w b ++ y :=
  append_lt_of_length (by rw [pad_length, pad_length]) (pad_lt_pad hab hb)

/-! ### Days -/

/-- Days before January 1st of year `y`. -/
@[irreducible] def daysBeforeYear (y : ℕ) : ℕ := (y - 1) * 365 + (y - 1) / 4 - (y - 1) / 100 + (y - 1) / 400

/-- Days before the first of month `m`; month 13 stands for the next year. -/
def daysBeforeMonth (leap : Bool) : ℕ → ℕ
  | 0 | 1 => 0
  | 2 => 31
  | 3 => 59 + leap.toNat
  | 4 => 90 + leap.toNat
  | 5 => 120 + leap.toNat
  | 6 => 151 + leap.toNat
  | 7 => 181 + leap.toNat
  | 8 => 212 + leap.toNat
  | 9 => 243 + leap.toNat
  | 10 => 273 + leap.toNat
  | 11 => 304 + leap.toNat
  | 12 => 334 + leap.toNat
  | _ => 365 + leap.toNat

/-- The month that holds day `n` of the year (counted from 0): the estimate
`(n + 50) >> 5` is right or one too large. -/
def monthOf (leap : Bool) (n : ℕ) : ℕ :=
  if n < daysBeforeMonth leap ((n + 50) / 32) then (n + 50) / 32 - 1 else (n + 50) / 32

/-- Calendar date. -/
structure Date where
  year : ℕ
  month : ℕ
  day : ℕ
deriving DecidableEq, Repr

/-- The date of day number `n`, day 0 being 0001-01-01. -/
def dateOf (n : ℕ) : Date :=
  let n400 := n / 146097
  let r400 := n % 146097
  let n100 := r400 / 36524
  let r100 := r400 % 36524
  let n4 := r100 / 1461
  let r4 := r100 % 1461
  let n1 := r4 / 365
  let r1 := r4 % 365
  let year := n400 * 400 + 1 + n100 * 100 + n4 * 4 + n1
  if n1 = 4 ∨ n100 = 4 then ⟨year - 1, 12, 31⟩
  else
    let leap := decide (n1 = 3 ∧ (n4 ≠ 24 ∨ n100 = 3))
    ⟨year, monthOf leap r1, r1 - daysBeforeMonth leap (monthOf leap r1) + 1⟩

/-- Day `n` lies in year `y`, which is a leap year when `leap` is set, and has
the position `r` in it. -/
structure YearPosition (n y r : ℕ) (leap : Bool) : Prop where
  pos : 1 ≤ y
  start : n = daysBeforeYear y + r
  inside : r < 365 + leap.toNat
  next : daysBeforeYear (y + 1) = daysBeforeYear y + 365 + leap.toNat

theorem monthOf_spec : ∀ leap : Bool, ∀ r < 365 + leap.toNat,
    1 ≤ monthOf leap r ∧ monthOf leap r ≤ 12 ∧
      daysBeforeMonth leap (monthOf leap r) ≤ r ∧ r < daysBeforeMonth leap (monthOf leap r + 1) ∧
      r - daysBeforeMonth leap (monthOf leap r) < 31 := by
  decide +kernel

/-- Year `400a + 100b + 4c + d + 1` in the cycles of the calendar. -/
theorem daysBeforeYear_cycles (a b c d : ℕ) (hb : b ≤ 3) (hc : c ≤ 24) (hd : d ≤ 3) :
    daysBeforeYear (a * 400 + 1 + b * 100 + c * 4 + d) =
      146097 * a + 36524 * b + 1461 * c + 365 * d := by
  have hz : a * 400 + 1 + b * 100 + c * 4 + d - 1 = 400 * a + 100 * b + 4 * c + d := by omega
  have h4 : (400 * a + 100 * b + 4 * c + d) / 4 = 100 * a + 25 * b + c := by omega
  have h100 : (400 * a + 100 * b + 4 * c + d) / 100 = 4 * a + b := by omega
  have h400 : (400 * a + 100 * b + 4 * c + d) / 400 = a := by omega
  rw [daysBeforeYear, hz, h4, h100, h400]
  omega

/-- The year after `400a + 100b + 4c + d + 1`; the carry into the next cycle is
what makes the year before it a leap year. -/
theorem daysBeforeYear_cycles_succ (a b c d : ℕ) (hb : b ≤ 3) (hc : c ≤ 24) (hd : d ≤ 3) :
    daysBeforeYear (a * 400 + 1 + b * 100 + c * 4 + d + 1) =
      146097 * a + 36524 * b + 1461 * c + 365 * d + 365 +
        (decide (d = 3 ∧ (c ≠ 24 ∨ b = 3))).toNat := by
  rcases Nat.lt_or_ge d 3 with hd3 | hd3
  · rw [Nat.add_assoc, daysBeforeYear_cycles a b c (d + 1) hb hc (by omega),
      decide_eq_false (by omega), Bool.toNat_false]
    omega
  rcases Nat.lt_or_ge c 24 with hc24 | hc24
  · rw [show a * 400 + 1 + b * 100 + c * 4 + d + 1 = a * 400 + 1 + b * 100 + (c + 1) * 4 + 0 by omega,
      daysBeforeYear_cycles a b (c + 1) 0 hb (by omega) (by omega),
      decide_eq_true (by omega), Bool.toNat_true]
    omega
  rcases Nat.lt_or_ge b 3 with hb3 | hb3
  · rw [show a * 400 + 1 + b * 100 + c * 4 + d + 1 = a * 400 + 1 + (b + 1) * 100 + 0 * 4 + 0 by omega,
      daysBeforeYear_cycles a (b + 1) 0 0 (by omega) (by omega) (by omega),
      decide_eq_false (by omega), Bool.toNat_false]
    omega
  · rw [show a * 400 + 1 + b * 100 + c * 4 + d + 1 = (a + 1) * 400 + 1 + 0 * 100 + 0 * 4 + 0 by omega,
      daysBeforeYear_cycles (a + 1) 0 0 0 (by omega) (by omega) (by omega),
      decide_eq_true (by omega), Bool.toNat_true]
    omega

theorem yearPosition_cycles (a b c d r : ℕ) (hb : b ≤ 3) (hc : c ≤ 24) (hd : d ≤ 3)
    (hr : r < 365 + (decide (d = 3 ∧ (c ≠ 24 ∨ b = 3))).toNat) :
    YearPosition (146097 * a + 36524 * b + 1461 * c + 365 * d + r)
      (a * 400 + 1 + b * 100 + c * 4 + d) r (decide (d = 3 ∧ (c ≠ 24 ∨ b = 3))) where
  pos := by omega
  start := by rw [daysBeforeYear_cycles a b c d hb hc hd]
  inside := hr
  next := by rw [daysBeforeYear_cycles_succ a b c d hb hc hd, daysBeforeYear_cycles a b c d hb hc hd]

/-- Every day number in the form the algorithm computes with. -/
theorem cycles (n : ℕ) : ∃ a b c d r, n = 146097 * a + 36524 * b + 1461 * c + 365 * d + r ∧
    a = n / 146097 ∧ b = n % 146097 / 36524 ∧ c = n % 146097 % 36524 / 1461 ∧
    d = n % 146097 % 36524 % 1461 / 365 ∧ r = n % 146097 % 36524 % 1461 % 365 ∧
    b ≤ 4 ∧ c ≤ 24 ∧ d ≤ 4 ∧ r < 365 ∧ (b = 4 → c = 0 ∧ d = 0 ∧ r = 0) ∧
    (d = 4 → r = 0 ∧ (c ≠ 24 ∨ b = 3)) := by
  refine ⟨_, _, _, _, _, ?_, rfl, rfl, rfl, rfl, rfl, ?_, ?_, ?_, ?_, ?_, ?_⟩ <;> omega

theorem dateOf_position (n : ℕ) : ∃ y r leap, YearPosition n y r leap ∧
    dateOf n = ⟨y, monthOf leap r, r - daysBeforeMonth leap (monthOf leap r) + 1⟩ := by
  obtain ⟨a, b, c, d, r, hn, ha, hb, hc, hd, hr, hb4, hc24, hd4, hr365, hlast4, hlast1⟩ := cycles n
  have hdate : dateOf n = if d = 4 ∨ b = 4 then ⟨a * 400 + 1 + b * 100 + c * 4 + d - 1, 12, 31⟩
      else ⟨a * 400 + 1 + b * 100 + c * 4 + d, monthOf (decide (d = 3 ∧ (c ≠ 24 ∨ b = 3))) r,
        r - daysBeforeMonth (decide (d = 3 ∧ (c ≠ 24 ∨ b = 3)))
          (monthOf (decide (d = 3 ∧ (c ≠ 24 ∨ b = 3))) r) + 1⟩ := by
    rw [ha, hb, hc, hd, hr]
    rfl
  rw [hdate]
  -- the last day of a leap year is where a division overshoots by one
  by_cases hd' : d = 4
  · obtain ⟨hr0, hcb⟩ := hlast1 hd'
    have hb3 : b ≤ 3 := by
      by_contra hb'
      have := (hlast4 (by omega)).2.1
      omega
    have hleap : decide (3 = 3 ∧ (c ≠ 24 ∨ b = 3)) = true := decide_eq_true ⟨rfl, hcb⟩
    have hpos := yearPosition_cycles a b c 3 365 hb3 hc24 le_rfl (by rw [hleap]; decide)
    rw [hleap] at hpos
    refine ⟨a * 400 + 1 + b * 100 + c * 4 + 3, 365, true, ?_, ?_⟩
    · have hday : n = 146097 * a + 36524 * b + 1461 * c + 365 * 3 + 365 := by omega
      rw [hday]
      exact hpos
    · rw [if_pos (Or.inl hd'), Date.mk.injEq, hd']
      exact ⟨by omega, by decide, by decide⟩
  by_cases hb' : b = 4
  · obtain ⟨hc0, hd0, hr0⟩ := hlast4 hb'
    have hpos := yearPosition_cycles a 3 24 3 365 le_rfl le_rfl le_rfl (by decide)
    refine ⟨a * 400 + 1 + 3 * 100 + 24 * 4 + 3, 365, true, ?_, ?_⟩
    · have hday : n = 146097 * a + 36524 * 3 + 1461 * 24 + 365 * 3 + 365 := by omega
      rw [hday]
      exact hpos
    · rw [if_pos (Or.inr hb'), Date.mk.injEq, hb', hc0, hd0]
      exact ⟨by omega, by decide, by decide⟩
  · refine ⟨a * 400 + 1 + b * 100 + c * 4 + d, r, decide (d = 3 ∧ (c ≠ 24 ∨ b = 3)), ?_, ?_⟩
    · rw [hn]
      exact yearPosition_cycles a b c d r (by omega) hc24 (by omega) (Nat.lt_add_right _ hr365)
    · rw [if_neg (not_or.mpr ⟨hd', hb'⟩)]

theorem daysBeforeYear_mono {y z : ℕ} (h : y ≤ z) : daysBeforeYear y ≤ daysBeforeYear z := by
  have h4 : (y - 1) / 4 ≤ (z - 1) / 4 := Nat.div_le_div_right (by omega)
  have h400 : (y - 1) / 400 ≤ (z - 1) / 400 := Nat.div_le_div_right (by omega)
  have h100 : (z - 1) / 100 ≤ (y - 1) / 100 + ((z - 1) - (y - 1)) := by
    have hq : (z - 1) / 100 ≤ (y - 1) / 100 + ((z - 1) - (y - 1)) / 100 + 1 := by omega
    by_cases hyz : y - 1 = z - 1
    · rw [hyz]
      exact Nat.le_add_right _ _
    · omega
  have h1004 : (y - 1) / 100 ≤ (y - 1) / 4 := Nat.div_le_div_left (by norm_num) (by norm_num)
  rw [daysBeforeYear, daysBeforeYear]
  generalize (y - 1) / 4 = y4 at *
  generalize (z - 1) / 4 = z4 at *
  generalize (y - 1) / 100 = y100 at *
  generalize (z - 1) / 100 = z100 at *
  generalize (y - 1) / 400 = y400 at *
  generalize (z - 1) / 400 = z400 at *
  omega

theorem daysBeforeMonth_mono (leap : Bool) {a b : ℕ} (hab : a ≤ b) (hb : b ≤ 13) :
    daysBeforeMonth leap a ≤ daysBeforeMonth leap b := by
  have table : ∀ leap : Bool, ∀ b ≤ 13, ∀ a ≤ b,
      daysBeforeMonth leap a ≤ daysBeforeMonth leap b := by decide
  exact table leap b hb a hab

/-- Later days have later dates, field by field. -/
theorem dateOf_lt {m n : ℕ} (h : m < n) :
    (dateOf m).year < (dateOf n).year ∨
    ((dateOf m).year = (dateOf n).year ∧ (dateOf m).month < (dateOf n).month) ∨
    ((dateOf m).year = (dateOf n).year ∧ (dateOf m).month = (dateOf n).month ∧
      (dateOf m).day < (dateOf n).day) := by
  obtain ⟨y, r, leap, hm, em⟩ := dateOf_position m
  obtain ⟨z, q, leap', hn, en⟩ := dateOf_position n
  simp only [em, en]
  rcases lt_trichotomy y z with hyz | hyz | hyz
  · exact Or.inl hyz
  · subst hyz
    have hl : leap = leap' := by
      have h1 := hm.next
      have h2 := hn.next
      cases leap <;> cases leap' <;> simp at h1 h2 ⊢ <;> omega
    subst hl
    have hrq : r < q := by
      have h1 := hm.start
      have h2 := hn.start
      omega
    obtain ⟨-, hr12, hrlo, hrhi, -⟩ := monthOf_spec leap r hm.inside
    obtain ⟨-, hq12, hqlo, hqhi, -⟩ := monthOf_spec leap q hn.inside
    rcases lt_trichotomy (monthOf leap r) (monthOf leap q) with hmon | hmon | hmon
    · exact Or.inr (Or.inl ⟨rfl, hmon⟩)
    · rw [hmon] at hrlo ⊢
      exact Or.inr (Or.inr ⟨rfl, rfl, by omega⟩)
    · have := daysBeforeMonth_mono leap (Nat.succ_le_of_lt hmon) (by omega)
      simp only [Nat.succ_eq_add_one] at this
      omega
  · have h1 := daysBeforeYear_mono (Nat.succ_le_of_lt hyz)
    have h2 := hn.next
    have h3 := hm.start
    have h4 := hn.start
    have h5 := hn.inside
    simp only [Nat.succ_eq_add_one] at h1
    omega

theorem dateOf_bounds (n : ℕ) (hn : n < 3652059) :
    (dateOf n).year < 10 ^ 4 ∧ (dateOf n).month < 10 ^ 2 ∧ (dateOf n).day < 10 ^ 2 := by
  obtain ⟨y, r, leap, hpos, hdate⟩ := dateOf_position n
  obtain ⟨-, hmonth, -, -, hday⟩ := monthOf_spec leap r hpos.inside
  have hyear : y < 10000 := by
    by_contra hy
    have h1 := daysBeforeYear_mono (Nat.le_of_not_lt hy)
    have h2 := hpos.start
    have h3 : daysBeforeYear 10000 = 3652059 := by rw [daysBeforeYear]
    omega
  rw [hdate]
  exact ⟨hyear, by dsimp only; omega, by dsimp only; omega⟩

/-! ### Instants -/

def microsPerSecond : ℕ := 1000000
def microsPerDay : ℕ := 86400000000

/-- `datetime.max` lies on day number 3652058. -/
def maxMicros : ℕ := 3652059 * microsPerDay

/-- A UTC instant of `datetime` (years 1 to 9999, microsecond precision). -/
structure UtcTime where
  micros : ℕ
  inRange : micros < maxMicros
deriving DecidableEq

instance : LinearOrder UtcTime :=
  LinearOrder.lift' UtcTime.micros fun a b h => by
    cases a
    cases b
    simpa using h

theorem UtcTime.lt_iff {a b : UtcTime} : a < b ↔ a.micros < b.micros := Iff.rfl

theorem UtcTime.le_iff {a b : UtcTime} : a ≤ b ↔ a.micros ≤ b.micros := Iff.rfl

/-- `t + timedelta(seconds=s)`; `none` is the `OverflowError` past year 9999. -/
def UtcTime.addSeconds (t : UtcTime) (s : ℕ) : Option UtcTime :=
  if h : t.micros + microsPerSecond * s < maxMicros then some ⟨_, h⟩ else none

/-- `t - timedelta(seconds=s)`; `none` is the `OverflowError` before year 1. -/
def UtcTime.subSeconds (t : UtcTime) (s : ℕ) : Option UtcTime :=
  if microsPerSecond * s ≤ t.micros then
    some ⟨t.micros - microsPerSecond * s, lt_of_le_of_lt (Nat.sub_le _ _) t.inRange⟩
  else none

theorem UtcTime.addSeconds_eq_some {t r : UtcTime} {s : ℕ} (h : t.addSeconds s = some r) :
    r.micros = t.micros + microsPerSecond * s := by
  unfold UtcTime.addSeconds at h
  split at h
  · cases h
    rfl
  · cases h

theorem UtcTime.subSeconds_eq_some {t r : UtcTime} {s : ℕ} (h : t.subSeconds s = some r) :
    r.micros + microsPerSecond * s = t.micros := by
  unfold UtcTime.subSeconds at h
  split at h
  · cases h
    dsimp only
    omega
  · cases h

/-! ### `isoformat` -/

/-- The zone suffix `+00:00`, after the fraction when there is one. -/
def isoTail (us : ℕ) : Text :=
  if us = 0 then ['+', '0', '0', ':', '0', '0']
  else '.' :: (pad 6 us ++ ['+', '0', '0', ':', '0', '0'])

/-- `hh:mm:ss` and the tail of a time of day given in microseconds. -/
def isoTime (tod : ℕ) : Text :=
  pad 2 (tod / 3600000000) ++ ':' :: (pad 2 (tod / 60000000 % 60) ++
    ':' :: (pad 2 (tod / 1000000 % 60) ++ isoTail (tod % 1000000)))

def isoDate (d : Date) (rest : Text) : Text :=
  pad 4 d.year ++ '-' :: (pad 2 d.month ++ '-' :: (pad 2 d.day ++ rest))

/-- `datetime.isoformat()` of an aware UTC value. -/
def UtcTime.isoformat (t : UtcTime) : Text :=
  isoDate (dateOf (t.micros / microsPerDay)) ('T' :: isoTime (t.micros % microsPerDay))

-- `+` sorts before `.`, so the text without a fraction comes first.
theorem isoTail_lt {a b : ℕ} (hab : a < b) (hb : b < 10 ^ 6) : isoTail a < isoTail b := by
  unfold isoTail
  rw [if_neg (by omega : ¬ b = 0)]
  split_ifs with ha
  · exact List.cons_lt_cons_iff.mpr (Or.inl (by decide))
  · exact List.cons_lt_cons_iff.mpr (Or.inr ⟨rfl, pad_append_lt hab hb _ _⟩)

/-- Equal fields pass the comparison on to what follows the separator. -/
theorem field_lt {w a b : ℕ} {c : Char} {x y : Text} (hab : a = b) (h : x < y) :
    pad w a ++ c :: x < pad w b ++ c :: y := by
  rw [hab]
  exact List.append_left_lt (List.cons_lt_cons_iff.mpr (Or.inr ⟨rfl, h⟩))

theorem isoTime_lt {a b : ℕ} (hab : a < b) (hb : b < microsPerDay) : isoTime a < isoTime b := by
  unfold microsPerDay at hb
  unfold isoTime
  rcases Nat.lt_or_ge (a / 3600000000) (b / 3600000000) with hh | hh
  · exact pad_append_lt hh (by omega) _ _
  refine field_lt (by omega) ?_
  rcases Nat.lt_or_ge (a / 60000000 % 60) (b / 60000000 % 60) with hm | hm
  · exact pad_append_lt hm (by omega) _ _
  refine field_lt (by omega) ?_
  rcases Nat.lt_or_ge (a / 1000000 % 60) (b / 1000000 % 60) with hs | hs
  · exact pad_append_lt hs (by omega) _ _
  · rw [show a / 1000000 % 60 = b / 1000000 % 60 by omega]
    exact List.append_left_lt (isoTail_lt (by omega) (by omega))

theorem isoDate_lt {m n : ℕ} (hmn : m < n) (hn : n < 3652059) (x y : Text) :
    isoDate (dateOf m) x < isoDate (dateOf n) y := by
  obtain ⟨hy, hmo, hd⟩ := dateOf_bounds n hn
  unfold isoDate
  rcases dateOf_lt hmn with h | ⟨h1, h2⟩ | ⟨h1, h2, h3⟩
  · exact pad_append_lt h hy _ _
  · exact field_lt h1 (pad_append_lt h2 hmo _ _)
  · exact field_lt h1 (field_lt h2 (pad_append_lt h3 hd _ _))

theorem UtcTime.isoformat_strictMono {a b : UtcTime} (h : a < b) : a.isoformat < b.isoformat := by
  rw [UtcTime.lt_iff] at h
  have hb := b.inRange
  unfold maxMicros at hb
  have hpos : 0 < microsPerDay := by decide
  have hday : b.micros / microsPerDay < 3652059 := by
    rw [Nat.div_lt_iff_lt_mul hpos]
    exact hb
  have hle : a.micros / microsPerDay ≤ b.micros / microsPerDay := Nat.div_le_div_right h.le
  unfold UtcTime.isoformat
  rcases Nat.lt_or_ge (a.micros / microsPerDay) (b.micros / microsPerDay) with hd | hd
  · exact isoDate_lt hd hday _ _
  · have heq : a.micros / microsPerDay = b.micros / microsPerDay := by omega
    have hrest : a.micros % microsPerDay < b.micros % microsPerDay := by
      have ha' := Nat.div_add_mod a.micros microsPerDay
      have hb' := Nat.div_add_mod b.micros microsPerDay
      rw [heq] at ha'
      omega
    rw [heq]
    unfold isoDate
    refine field_lt rfl (field_lt rfl (List.append_left_lt ?_))
    exact List.cons_lt_cons_iff.mpr (Or.inr ⟨rfl, isoTime_lt hrest (Nat.mod_lt _ hpos)⟩)

/-- The texts of two instants sort as the instants do. -/
theorem UtcTime.isoformat_lt_isoformat {a b : UtcTime} : a.isoformat < b.isoformat ↔ a < b := by
  refine ⟨fun h => ?_, UtcTime.isoformat_strictMono⟩
  rcases lt_trichotomy a b with hab | hab | hab
  · exact hab
  · rw [hab] at h
    exact absurd h (lt_irrefl _)
  · exact absurd h (lt_asymm (UtcTime.isoformat_strictMono hab))

theorem UtcTime.isoformat_le_isoformat {a b : UtcTime} : a.isoformat ≤ b.isoformat ↔ a ≤ b := by
  rw [← not_lt, ← not_lt, UtcTime.isoformat_lt_isoformat]

end AgentWorkflow.Lib.Calendar
