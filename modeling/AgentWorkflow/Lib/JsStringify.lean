import AgentWorkflow.Lib.JsValue
import AgentWorkflow.Lib.JsonTrail

/-!
# Writing values of JavaScript programs

`JSON.stringify`, compact or indented. What it writes of a value is read back as that
value.
-/

namespace AgentWorkflow.Lib.JsonText

universe u

/-! ### Layout -/

section Lay
variable {α : Type u} (unit : ℕ → α) (line : ℕ → List α) (colon : List α)

mutual
/-- The document with `line n` before every item and every member of depth `n` and before
the bracket that closes them, and `colon` after every colon. -/
def Doc.lay : ℕ → Doc α → List α
  | _, .null => [0x6E, 0x75, 0x6C, 0x6C].map unit
  | _, .bool true => [0x74, 0x72, 0x75, 0x65].map unit
  | _, .bool false => [0x66, 0x61, 0x6C, 0x73, 0x65].map unit
  | _, .num n => n.text
  | _, .str b => unit 0x22 :: (b ++ [unit 0x22])
  | _, .arr [] => [unit 0x5B, unit 0x5D]
  | d, .arr (v :: l) => unit 0x5B :: (line (d + 1) ++ (v.lay (d + 1) ++ layItems d l))
  | _, .obj [] => [unit 0x7B, unit 0x7D]
  | d, .obj ((k, v) :: l) =>
    unit 0x7B :: (line (d + 1) ++ unit 0x22 :: (k ++ unit 0x22 :: unit 0x3A :: (colon ++ (v.lay (d + 1) ++ layMembers d l))))

def Doc.layItems (d : ℕ) : List (Doc α) → List α
  | [] => line d ++ [unit 0x5D]
  | v :: l => unit 0x2C :: (line (d + 1) ++ (v.lay (d + 1) ++ layItems d l))

def Doc.layMembers (d : ℕ) : List (List α × Doc α) → List α
  | [] => line d ++ [unit 0x7D]
  | (k, v) :: l =>
    unit 0x2C :: (line (d + 1) ++ unit 0x22 :: (k ++ unit 0x22 :: unit 0x3A :: (colon ++ (v.lay (d + 1) ++ layMembers d l))))
end

end Lay

section Read
variable {α : Type u} {code : α → ℕ} {unit : ℕ → α} {line : ℕ → List α} {colon : List α}

/-- What follows a value: a comma, a bracket that closes, or a blank. -/
def Trails (code : α → ℕ) (t : List α) : Prop := ∀ c ∈ t.head?, code c ∈ [0x2C, 0x5D, 0x7D, 0x20, 9, 10, 13]

theorem Trails.ends {t : List α} (h : Trails code t) : Ends code t := by
  refine ⟨fun c hc => ?_, fun c hc hm => ?_⟩
  · have hcode := h c hc
    simp only [List.mem_cons, List.not_mem_nil, or_false] at hcode
    simp only [isDigit, decide_eq_false_iff_not]
    omega
  · have hcode := h c hc
    simp only [List.mem_cons, List.not_mem_nil, or_false] at hm hcode
    omega

theorem scanValue_numeral {n : ℕ} {m : Numeral α} (hm : m.Ok code) {t : List α} (ht : Trails code t) :
    scanValue code (n + 1) (m.text ++ t) = some (.num m, t) := by
  obtain ⟨c, r, hc, hne⟩ := numeral_head hm
  have hscan := scanNumeral_append hm ht.ends
  rw [hc, List.cons_append] at hscan
  simp only [List.mem_cons, List.not_mem_nil, or_false, not_or] at hne
  rw [hc, List.cons_append]
  unfold scanValue
  simp only [hne, if_false, hscan, Option.map_some]

theorem trails_blank {gap t : List α} (hgap : Blank code gap) (ht : Trails code t) : Trails code (gap ++ t) := by
  cases gap with
  | nil => exact ht
  | cons c gap =>
    rintro d ⟨⟩
    rcases isWs_cases (hgap c (List.mem_cons_self ..)) with h | h | h | h <;> rw [h] <;> decide

section
variable (hu : Ascii code unit) (hline : ∀ d, Blank code (line d))
include hu hline

theorem trails_layItems (d : ℕ) (l : List (Doc α)) (t : List α) : Trails code (Doc.layItems unit line colon d l ++ t) := by
  cases l with
  | nil =>
    unfold Doc.layItems
    rw [List.append_assoc]
    refine trails_blank (hline d) ?_
    rintro c ⟨⟩
    rw [hu _ (by decide)]
    decide
  | cons v l =>
    unfold Doc.layItems
    rintro c ⟨⟩
    rw [hu _ (by decide)]
    decide

theorem trails_layMembers (d : ℕ) (l : List (List α × Doc α)) (t : List α) :
    Trails code (Doc.layMembers unit line colon d l ++ t) := by
  cases l with
  | nil =>
    unfold Doc.layMembers
    rw [List.append_assoc]
    refine trails_blank (hline d) ?_
    rintro c ⟨⟩
    rw [hu _ (by decide)]
    decide
  | cons m l =>
    unfold Doc.layMembers
    rintro c ⟨⟩
    rw [hu _ (by decide)]
    decide

omit hline in
/-- The first unit of a value is no blank and ends nothing. -/
theorem lay_head (line : ℕ → List α) (colon : List α) (n : ℕ) {d : Doc α} (hd : d.Ok code) :
    ∃ c t, d.lay unit line colon n = c :: t ∧ isWs code c = false ∧ code c ≠ 0x5D ∧ code c ≠ 0x7D := by
  have hfirst : ∀ (m : ℕ) (t : List α), m < 128 → m ∉ [0x20, 9, 10, 13, 0x5D, 0x7D] →
      ∃ c r, unit m :: t = c :: r ∧ isWs code c = false ∧ code c ≠ 0x5D ∧ code c ≠ 0x7D := by
    intro m t hm hne
    simp only [List.mem_cons, List.not_mem_nil, or_false, not_or] at hne
    refine ⟨_, _, rfl, isWs_false ?_, hu.ne hm hne.2.2.2.2.1, hu.ne hm hne.2.2.2.2.2⟩
    rw [hu m hm]
    simp [hne]
  cases d with
  | null => exact hfirst 0x6E _ (by decide) (by decide)
  | bool b =>
    cases b with
    | false => exact hfirst 0x66 _ (by decide) (by decide)
    | true => exact hfirst 0x74 _ (by decide) (by decide)
  | str b => exact hfirst 0x22 _ (by decide) (by decide)
  | num n =>
    obtain ⟨c, t, hct, hc⟩ := numeral_head hd
    simp only [List.mem_cons, List.not_mem_nil, or_false, not_or] at hc
    refine ⟨c, t, hct, isWs_false ?_, ?_⟩
    · simp [hc]
    · simp [hc]
  | arr l => cases l <;> exact hfirst 0x5B _ (by decide) (by decide)
  | obj l => cases l <;> exact hfirst 0x7B _ (by decide) (by decide)

omit hline in
theorem skipWs_lay (line : ℕ → List α) (colon : List α) (n : ℕ) {d : Doc α} (hd : d.Ok code) (t : List α) :
    skipWs code (d.lay unit line colon n ++ t) = d.lay unit line colon n ++ t := by
  obtain ⟨c, r, hc, hws, -⟩ := lay_head hu line colon n hd
  rw [hc, List.cons_append]
  exact skipWs_cons _ hws

theorem closes_lay (colon : List α) (n : ℕ) {d : Doc α} (hd : d.Ok code) (t : List α) :
    closes code 0x5D (line n ++ (d.lay unit line colon n ++ t)) = none := by
  obtain ⟨c, r, hc, hws, hne, -⟩ := lay_head hu line colon n hd
  unfold closes
  rw [skipWs_gap (hline n), skipWs_lay hu line colon n hd, hc]
  exact if_neg hne

theorem closes_line (n : ℕ) (t : List α) : closes code 0x7D (line n ++ unit 0x22 :: t) = none := by
  unfold closes
  rw [skipWs_gap (hline n), hu.skipWs (by decide) (by decide)]
  exact if_neg (hu.ne (by decide) (by decide))

omit hu hline in
theorem length_lt_layItems (unit : ℕ → α) (line : ℕ → List α) (colon : List α) (n : ℕ) (l : List (Doc α)) :
    l.length < (Doc.layItems unit line colon n l).length := by
  induction l with
  | nil => simp [Doc.layItems]
  | cons v l ih =>
    simp only [Doc.layItems, List.length_cons, List.length_append]
    omega

omit hu hline in
theorem length_lt_layMembers (unit : ℕ → α) (line : ℕ → List α) (colon : List α) (n : ℕ) (l : List (List α × Doc α)) :
    l.length < (Doc.layMembers unit line colon n l).length := by
  induction l with
  | nil => simp [Doc.layMembers]
  | cons m l ih =>
    simp only [Doc.layMembers, List.length_cons, List.length_append]
    omega

variable (hcolon : Blank code colon)
include hcolon

omit hline in
/-- Reading a member that follows a blank. -/
theorem scanMember_lay {value : List α → Option (Doc α × List α)} {k : List α} {v : Doc α} {n : ℕ} {s t : List α} (hs : Blank code s)
    (hk : Body code k) (hok : v.Ok code) (hv : value (v.lay unit line colon n ++ t) = some (v, t)) :
    scanMember code value (s ++ unit 0x22 :: (k ++ unit 0x22 :: unit 0x3A :: (colon ++ (v.lay unit line colon n ++ t)))) =
      some ((k, v), t) := by
  have hquote : code (unit 0x22) = 0x22 := hu _ (by decide)
  unfold scanMember
  rw [skipWs_gap hs, hu.skipWs (by decide) (by decide)]
  dsimp only
  rw [if_pos hquote, scanBody_append hk hquote]
  dsimp only
  rw [hu.skipWs (by decide) (by decide)]
  dsimp only
  rw [if_pos (hu _ (by decide)), skipWs_gap hcolon, skipWs_lay hu line colon n hok, hv]
  rfl

set_option linter.unusedSectionVars false in
mutual
/-- A value is read back, whatever comes after it. -/
theorem scanValue_lay (d : Doc α) (hd : d.Ok code) (depth n : ℕ) (t : List α) (hn : (d.lay unit line colon depth).length ≤ n)
    (ht : Trails code t) : scanValue code n (d.lay unit line colon depth ++ t) = some (d, t) := by
  obtain ⟨n, rfl⟩ : ∃ m, n = m + 1 := by
    obtain ⟨c, r, hc, -⟩ := lay_head hu line colon depth hd
    rw [hc, List.length_cons] at hn
    exact ⟨n - 1, by omega⟩
  match d with
  | .null => exact scanValue_word hu t (by decide) (Or.inr (Or.inr ⟨rfl, rfl, rfl⟩))
  | .bool true => exact scanValue_word hu t (by decide) (Or.inl ⟨rfl, rfl, rfl⟩)
  | .bool false => exact scanValue_word hu t (by decide) (Or.inr (Or.inl ⟨rfl, rfl, rfl⟩))
  | .num m => exact scanValue_numeral hd ht
  | .str b =>
    have hquote : code (unit 0x22) = 0x22 := hu _ (by decide)
    dsimp only [Doc.lay, List.cons_append]
    unfold scanValue
    rw [List.append_assoc, List.singleton_append, scanBody_append hd hquote]
    simp only [hquote]
    rfl
  | .arr [] =>
    have hopen : code (unit 0x5B) = 0x5B := hu _ (by decide)
    have hclose : closes code 0x5D (unit 0x5D :: t) = some t := by
      unfold closes
      rw [hu.skipWs (by decide) (by decide)]
      exact if_pos (hu _ (by decide))
    dsimp only [Doc.lay, List.cons_append, List.nil_append]
    unfold scanValue
    simp only [hopen, hclose]
    rfl
  | .arr (v :: l) =>
    obtain ⟨hv, hl⟩ := hd
    have hlen : (v.lay unit line colon (depth + 1)).length + (Doc.layItems unit line colon depth l).length ≤ n := by
      simp only [Doc.lay, List.length_cons, List.length_append] at hn
      omega
    have hmore := length_lt_layItems unit line colon depth l
    dsimp only [Doc.lay, List.cons_append]
    unfold scanValue
    rw [if_neg (hu.ne (by decide) (by decide)), if_pos (hu _ (by decide)), List.append_assoc, List.append_assoc,
      closes_lay hu hline colon (depth + 1) hv]
    dsimp only
    rw [scanItems_lay l hl depth n n t (by omega) (by omega) v hv fun u hu' => scanValue_lay v hv (depth + 1) n u (by omega) hu']
    rfl
  | .obj [] =>
    have hopen : code (unit 0x7B) = 0x7B := hu _ (by decide)
    have hclose : closes code 0x7D (unit 0x7D :: t) = some t := by
      unfold closes
      rw [hu.skipWs (by decide) (by decide)]
      exact if_pos (hu _ (by decide))
    dsimp only [Doc.lay, List.cons_append, List.nil_append]
    unfold scanValue
    simp only [hopen, hclose]
    rfl
  | .obj ((k, v) :: l) =>
    obtain ⟨hk, hv, hl⟩ := hd
    have hlen : k.length + (v.lay unit line colon (depth + 1)).length + (Doc.layMembers unit line colon depth l).length + 3 ≤ n := by
      simp only [Doc.lay, List.length_cons, List.length_append] at hn
      omega
    have hmore := length_lt_layMembers unit line colon depth l
    have hmembers := scanMembers_lay l hl depth n n t (by omega) (by omega) k v hk hv
      fun u hu' => scanValue_lay v hv (depth + 1) n u (by omega) hu'
    dsimp only [Doc.lay, List.cons_append]
    unfold scanValue
    rw [if_pos (hu _ (by decide))]
    simp only [List.append_assoc, List.cons_append]
    rw [closes_line hu hline]
    dsimp only
    rw [hmembers]
    rfl

theorem scanItems_lay (l : List (Doc α)) (hl : Doc.OkItems code l) (depth n k : ℕ) (t : List α)
    (hn : (Doc.layItems unit line colon depth l).length ≤ n) (hk : l.length < k) (v : Doc α) (hv : v.Ok code)
    (hread : ∀ u, Trails code u → scanValue code n (v.lay unit line colon (depth + 1) ++ u) = some (v, u)) :
    scanItems code (scanValue code n) k
      (line (depth + 1) ++ (v.lay unit line colon (depth + 1) ++ (Doc.layItems unit line colon depth l ++ t))) = some (v :: l, t) := by
  obtain ⟨k, rfl⟩ : ∃ m, k = m + 1 := ⟨k - 1, by omega⟩
  unfold scanItems
  rw [skipWs_gap (hline _), skipWs_lay hu line colon _ hv, hread _ (trails_layItems hu hline depth l t)]
  match l with
  | [] =>
    dsimp only [Doc.layItems]
    rw [List.append_assoc, skipWs_gap (hline _), List.singleton_append, hu.skipWs (by decide) (by decide)]
    dsimp only
    rw [if_neg (hu.ne (by decide) (by decide)), if_pos (hu _ (by decide))]
  | w :: l =>
    obtain ⟨hw, hl⟩ := hl
    have hlen : (w.lay unit line colon (depth + 1)).length + (Doc.layItems unit line colon depth l).length < n := by
      simp only [Doc.layItems, List.length_cons, List.length_append] at hn
      omega
    dsimp only [Doc.layItems, List.cons_append]
    rw [hu.skipWs (by decide) (by decide)]
    dsimp only
    rw [if_pos (hu _ (by decide)), List.append_assoc, List.append_assoc,
      scanItems_lay l hl depth n k t (by omega) (by simpa using hk) w hw
        fun u hu' => scanValue_lay w hw (depth + 1) n u (by omega) hu']
    rfl

theorem scanMembers_lay (l : List (List α × Doc α)) (hl : Doc.OkMembers code l) (depth n k : ℕ) (t : List α)
    (hn : (Doc.layMembers unit line colon depth l).length ≤ n) (hk : l.length < k) (key : List α) (v : Doc α) (hkey : Body code key)
    (hv : v.Ok code) (hread : ∀ u, Trails code u → scanValue code n (v.lay unit line colon (depth + 1) ++ u) = some (v, u)) :
    scanMembers code (scanValue code n) k
      (line (depth + 1) ++ unit 0x22 :: (key ++ unit 0x22 :: unit 0x3A ::
        (colon ++ (v.lay unit line colon (depth + 1) ++ (Doc.layMembers unit line colon depth l ++ t))))) = some ((key, v) :: l, t) := by
  obtain ⟨k, rfl⟩ : ∃ m, k = m + 1 := ⟨k - 1, by omega⟩
  unfold scanMembers
  rw [scanMember_lay hu hcolon (hline _) hkey hv (hread _ (trails_layMembers hu hline depth l t))]
  match l with
  | [] =>
    dsimp only [Doc.layMembers]
    rw [List.append_assoc, skipWs_gap (hline _), List.singleton_append, hu.skipWs (by decide) (by decide)]
    dsimp only
    rw [if_neg (hu.ne (by decide) (by decide)), if_pos (hu _ (by decide))]
  | (j, w) :: l =>
    obtain ⟨hj, hw, hl⟩ := hl
    have hlen : (w.lay unit line colon (depth + 1)).length + (Doc.layMembers unit line colon depth l).length < n := by
      simp only [Doc.layMembers, List.length_cons, List.length_append] at hn
      omega
    have hmembers := scanMembers_lay l hl depth n k t (by omega) (by simpa using hk) j w hj hw
      fun u hu' => scanValue_lay w hw (depth + 1) n u (by omega) hu'
    dsimp only [Doc.layMembers, List.cons_append]
    rw [hu.skipWs (by decide) (by decide)]
    dsimp only
    rw [if_pos (hu _ (by decide))]
    simp only [List.append_assoc, List.cons_append]
    rw [hmembers]
    rfl
end

/-- Reading what `lay` writes. -/
theorem parse_lay {d : Doc α} (hd : d.Ok code) (depth : ℕ) : parse code (d.lay unit line colon depth) = some d := by
  have hskip := skipWs_lay hu line colon depth hd []
  rw [List.append_nil] at hskip
  have hscan := scanValue_lay hu hline hcolon d hd depth ((d.lay unit line colon depth).length + 1) [] (by omega) (by simp [Trails])
  rw [List.append_nil] at hscan
  unfold parse
  rw [hskip, hscan]
  rfl

end

end Read

end AgentWorkflow.Lib.JsonText

namespace AgentWorkflow.Lib.Js
open JsonText

/-! ### Strings -/

def isHigh (c : UInt16) : Bool := decide (0xD800 ≤ c ∧ c ≤ 0xDBFF)
def isLow (c : UInt16) : Bool := decide (0xDC00 ≤ c ∧ c ≤ 0xDFFF)

/-- The unit of a short escape. -/
def shortEscape (c : UInt16) : Option UInt16 :=
  if c = 0x08 then some 0x62
  else if c = 0x09 then some 0x74
  else if c = 0x0A then some 0x6E
  else if c = 0x0C then some 0x66
  else if c = 0x0D then some 0x72
  else if c = 0x22 ∨ c = 0x5C then some c
  else none

def hexDigit (n : ℕ) : UInt16 := UInt16.ofNat (if n < 10 then 0x30 + n else 0x57 + n)

def hexEscape (c : UInt16) : Str :=
  [0x5C, 0x75, hexDigit (c.toNat / 0x1000), hexDigit (c.toNat / 0x100 % 16), hexDigit (c.toNat / 16 % 16), hexDigit (c.toNat % 16)]

def escapeUnit (c : UInt16) : Str :=
  match shortEscape c with
  | some e => [0x5C, e]
  | none => if c < 0x20 || isHigh c || isLow c then hexEscape c else [c]

/-- The string between the quotes. -/
def escape : Str → Str
  | [] => []
  | [c] => escapeUnit c
  | c :: d :: t => if isHigh c && isLow d then c :: d :: escape t else escapeUnit c ++ escape (d :: t)

theorem ascii_unit : Ascii UInt16.toNat UInt16.ofNat := by
  intro n hn
  rw [UInt16.toNat_ofNat']
  omega

theorem hexDigit_spec {n : ℕ} (hn : n < 16) : isHex UInt16.toNat (hexDigit n) = true ∧ hexValue (hexDigit n).toNat = n := by
  interval_cases n <;> decide

theorem utf16_unit (c : UInt16) : JsText.utf16 c.toNat = [c] := by
  have hc := c.toNat_lt
  unfold JsText.utf16
  rw [if_pos (by omega), UInt16.ofNat_toNat]

theorem shortEscape_spec {c e : UInt16} (h : shortEscape c = some e) :
    isEscape UInt16.toNat e = true ∧ e ≠ 0x75 ∧ UInt16.ofNat (shortValue e.toNat) = c := by
  unfold shortEscape at h
  split_ifs at h with h₁ h₂ h₃ h₄ h₅ h₆
  · cases h; rw [h₁]; decide
  · cases h; rw [h₂]; decide
  · cases h; rw [h₃]; decide
  · cases h; rw [h₄]; decide
  · cases h; rw [h₅]; decide
  · cases h
    rcases h₆ with rfl | rfl <;> decide

/-- A unit that stands for itself. -/
theorem plain_unit {c : UInt16} (hc : 0x20 ≤ c) (h : shortEscape c = none) : 0x20 ≤ c.toNat ∧ c.toNat ≠ 0x22 ∧ c.toNat ≠ 0x5C := by
  have hne : c ≠ 0x22 ∧ c ≠ 0x5C := by
    constructor <;> rintro rfl <;> exact absurd h (by decide)
  refine ⟨UInt16.le_iff_toNat_le.mp hc, fun h => hne.1 ?_, fun h => hne.2 ?_⟩
  · exact UInt16.toNat_inj.mp h
  · exact UInt16.toNat_inj.mp h

theorem high_unit {c : UInt16} (h : isHigh c = true ∨ isLow c = true) : 0x20 ≤ c ∧ shortEscape c = none := by
  have hbig : 0xD800 ≤ c.toNat := by
    rcases h with h | h
    · exact UInt16.le_iff_toNat_le.mp (of_decide_eq_true h).1
    · have := UInt16.le_iff_toNat_le.mp (of_decide_eq_true h).1
      exact le_trans (by decide) this
  have hne : ∀ d : UInt16, d.toNat < 0xD800 → c ≠ d := by
    rintro d hd rfl
    omega
  refine ⟨UInt16.le_iff_toNat_le.mpr (le_trans (by decide) hbig), ?_⟩
  unfold shortEscape
  rw [if_neg (hne _ (by decide)), if_neg (hne _ (by decide)), if_neg (hne _ (by decide)), if_neg (hne _ (by decide)),
    if_neg (hne _ (by decide)), if_neg]
  rintro (h | h)
  · exact hne _ (by decide) h
  · exact hne _ (by decide) h

/-- What one unit becomes is read as that unit. -/
theorem escapeUnit_spec (c : UInt16) {t : Str} (ht : Body UInt16.toNat t) :
    Body UInt16.toNat (escapeUnit c ++ t) ∧ unescape UInt16.toNat (escapeUnit c ++ t) = c :: unescape UInt16.toNat t := by
  unfold escapeUnit
  cases hshort : shortEscape c with
  | some e =>
    obtain ⟨hescape, hne, hvalue⟩ := shortEscape_spec hshort
    have hu : ¬ e.toNat = 0x75 := fun h => hne (UInt16.toNat_inj.mp h)
    refine ⟨.escape rfl hescape ht, ?_⟩
    dsimp only [List.cons_append, List.nil_append]
    rw [unescape.eq_def]
    simp [hu, hvalue]
  | none =>
    dsimp only
    split
    · have h₁ := hexDigit_spec (n := c.toNat / 0x1000) (by have := c.toNat_lt; omega)
      have h₂ := hexDigit_spec (n := c.toNat / 0x100 % 16) (by omega)
      have h₃ := hexDigit_spec (n := c.toNat / 16 % 16) (by omega)
      have h₄ := hexDigit_spec (n := c.toNat % 16) (by omega)
      have hvalue : c.toNat / 0x1000 * 0x1000 + c.toNat / 0x100 % 16 * 0x100 + c.toNat / 16 % 16 * 16 + c.toNat % 16 = c.toNat := by
        omega
      refine ⟨.unicode rfl rfl ?_ ht, ?_⟩
      · simp [h₁.1, h₂.1, h₃.1, h₄.1]
      · dsimp only [hexEscape, List.cons_append, List.nil_append]
        rw [unescape.eq_def]
        simp only [h₁.2, h₂.2, h₃.2, h₄.2, hvalue, UInt16.ofNat_toNat]
        rfl
    · next hcontrol =>
      simp only [Bool.or_eq_true, decide_eq_true_eq, not_or] at hcontrol
      have hplain := plain_unit (UInt16.not_lt.mp hcontrol.1.1) hshort
      refine ⟨.plain hplain.1 hplain.2.1 hplain.2.2 ht, ?_⟩
      rw [List.singleton_append, unescape.eq_def]
      simp only [hplain.2.2, if_false, utf16_unit]
      rfl

theorem escape_spec (s : Str) : Body UInt16.toNat (escape s) ∧ unescape UInt16.toNat (escape s) = s := by
  fun_induction escape s with
  | case1 => exact ⟨.nil, rfl⟩
  | case2 c =>
    have h := escapeUnit_spec c .nil
    rw [List.append_nil] at h
    exact h
  | case3 c d t hpair ih =>
    obtain ⟨hc, hd⟩ := Bool.and_eq_true_iff.mp hpair
    obtain ⟨hc₁, hc₂⟩ := high_unit (Or.inl hc)
    obtain ⟨hd₁, hd₂⟩ := high_unit (Or.inr hd)
    have hcplain := plain_unit hc₁ hc₂
    have hdplain := plain_unit hd₁ hd₂
    refine ⟨.plain hcplain.1 hcplain.2.1 hcplain.2.2 (.plain hdplain.1 hdplain.2.1 hdplain.2.2 ih.1), ?_⟩
    rw [unescape.eq_def]
    simp only [hcplain.2.2, if_false, utf16_unit]
    rw [unescape.eq_def]
    simp only [hdplain.2.2, if_false, utf16_unit, ih.2]
    rfl
  | case4 c d t hpair ih =>
    have h := escapeUnit_spec c ih.1
    rw [ih.2] at h
    exact h

/-- What a unit becomes are ASCII units when it is one. -/
theorem escape_ascii {s : Str} (hs : ∀ c ∈ s, c < 0x80) : ∀ c ∈ escape s, c < 0x80 := by
  have hdigit : ∀ n < 16, hexDigit n < 0x80 := by decide
  have hunit : ∀ c < 0x80, ∀ e ∈ escapeUnit c, e < 0x80 := by
    intro c hc e he
    unfold escapeUnit at he
    cases hshort : shortEscape c with
    | some x =>
      have hx : x < 0x80 := by
        unfold shortEscape at hshort
        split_ifs at hshort <;> cases hshort <;> first | decide | exact hc
      rw [hshort] at he
      simp only [List.mem_cons, List.not_mem_nil, or_false] at he
      rcases he with rfl | rfl
      · decide
      · exact hx
    | none =>
      rw [hshort] at he
      dsimp only at he
      split at he
      · have hbound := c.toNat_lt
        simp only [hexEscape, List.mem_cons, List.not_mem_nil, or_false] at he
        rcases he with rfl | rfl | rfl | rfl | rfl | rfl
        · decide
        · decide
        · exact hdigit _ (by omega)
        · exact hdigit _ (by omega)
        · exact hdigit _ (by omega)
        · exact hdigit _ (by omega)
      · rw [List.mem_singleton.mp he]
        exact hc
  fun_induction escape s with
  | case1 => simp
  | case2 c => exact hunit c (hs c (by simp))
  | case3 c d t hpair ih =>
    intro e he
    simp only [List.mem_cons] at he
    rcases he with rfl | rfl | he
    · exact hs _ (by simp)
    · exact hs _ (by simp)
    · exact ih (fun x hx => hs x (by simp [hx])) e he
  | case4 c d t hpair ih =>
    intro e he
    rcases List.mem_append.mp he with he | he
    · exact hunit c (hs c (by simp)) e he
    · exact ih (fun x hx => hs x (List.mem_cons_of_mem _ hx)) e he

/-- Printable ASCII without quotes and backslashes is written as it is. -/
theorem escape_plain {s : Str} (hs : ∀ c ∈ s, 0x20 ≤ c ∧ c < 0x80 ∧ c ≠ 0x22 ∧ c ≠ 0x5C) : escape s = s := by
  have hsurrogate : ∀ c ∈ s, isHigh c = false ∧ isLow c = false := by
    intro c hc
    have hlt := UInt16.lt_iff_toNat_lt.mp (hs c hc).2.1
    have hbig : ∀ d : UInt16, 0xD800 ≤ d.toNat → ¬ d ≤ c := by
      intro d hd hle
      have := UInt16.le_iff_toNat_le.mp hle
      exact absurd (lt_of_lt_of_le (lt_of_le_of_lt this hlt) (le_refl _)) (not_lt.mpr (le_trans (by decide) hd))
    exact ⟨decide_eq_false fun h => hbig _ (by decide) h.1, decide_eq_false fun h => hbig _ (by decide) h.1⟩
  have hunit : ∀ c ∈ s, escapeUnit c = [c] := by
    intro c hc
    obtain ⟨hlow, hhigh, hquote, hslash⟩ := hs c hc
    have hne : ∀ d : UInt16, d.toNat < 0x20 → c ≠ d := by
      rintro d hd rfl
      have := UInt16.le_iff_toNat_le.mp hlow
      exact absurd hd (not_lt.mpr this)
    have hshort : shortEscape c = none := by
      unfold shortEscape
      rw [if_neg (hne _ (by decide)), if_neg (hne _ (by decide)), if_neg (hne _ (by decide)), if_neg (hne _ (by decide)),
        if_neg (hne _ (by decide)), if_neg (by simp [hquote, hslash])]
    unfold escapeUnit
    simp [hshort, hsurrogate c hc, UInt16.not_lt.mpr hlow]
  fun_induction escape s with
  | case1 => rfl
  | case2 c => exact hunit c (by simp)
  | case3 c d t hpair ih =>
    rw [(hsurrogate c (by simp)).1] at hpair
    cases hpair
  | case4 c d t hpair ih =>
    rw [hunit c (by simp), ih (fun x hx => hs x (List.mem_cons_of_mem _ hx)) (fun x hx => hsurrogate x (List.mem_cons_of_mem _ hx))
      fun x hx => hunit x (List.mem_cons_of_mem _ hx)]
    rfl

/-! ### Numbers -/

/-- The place of the point in the shortest decimal, counted from its first digit. -/
def Number.point (n : Number) : ℤ :=
  (Decimal.digits UInt16.ofNat (Binary64.shortest n.word).1).length +
    if (Binary64.shortest n.word).1 = 0 then 0 else (Binary64.shortest n.word).2

/-- The numeral of a finite number; zero has no sign. -/
def Number.numeral (n : Number) : Numeral UInt16 :=
  Decimal.writeWord UInt16.ofNat ⟨decide (n.point ≤ -6 ∨ 21 < n.point), 1, false⟩ (n.negative && decide (n.word ≠ 0)) n.word

def Number.isFinite (n : Number) : Bool := decide (n.word < Binary64.infinity)

theorem numeral_ok (n : Number) : n.numeral.Ok UInt16.toNat := Decimal.writeWord_ok ascii_unit ..

theorem ofNumeral_numeral {n : Number} (hfinite : n.isFinite = true) (hzero : n.negative = true → n.word ≠ 0) :
    Number.ofNumeral UInt16.toNat n.numeral = n := by
  have hmagnitude : Decimal.magnitude UInt16.toNat n.numeral =
      Binary64.decimal (Binary64.shortest n.word).1 (Binary64.shortest n.word).2 := Decimal.magnitude_writeWord ascii_unit ..
  have hsign : n.numeral.sign = Decimal.signText UInt16.ofNat (n.negative && decide (n.word ≠ 0)) := Decimal.writeWord_sign ..
  have hnegative : (n.negative && decide (n.word ≠ 0)) = n.negative := by
    cases hn : n.negative with
    | false => rfl
    | true => simpa using hzero hn
  unfold Number.ofNumeral
  rw [hmagnitude, Binary64.ofRat_shortest (of_decide_eq_true hfinite), hsign, hnegative]
  obtain ⟨negative, word⟩ := n
  cases negative <;> rfl

/-! ### Values -/

mutual
/-- The document that `JSON.stringify` writes. -/
def Value.toDoc : Value → Doc UInt16
  | .null => .null
  | .bool b => .bool b
  | .num n => if n.isFinite then .num n.numeral else .null
  | .str s => .str (escape s)
  | .arr items => .arr (toItems items)
  | .obj members => .obj (toMembers members)

def Value.toItems : List Value → List (Doc UInt16)
  | [] => []
  | v :: l => v.toDoc :: toItems l

def Value.toMembers : List (Str × Value) → List (Str × Doc UInt16)
  | [] => []
  | (k, v) :: l => (escape k, v.toDoc) :: toMembers l
end

/-- `JSON.stringify(value)` -/
def stringify (v : Value) : Str := v.toDoc.lay UInt16.ofNat (fun _ => []) [] 0

/-- `JSON.stringify(value, null, 2)` -/
def stringifyIndented (v : Value) : Str := v.toDoc.lay UInt16.ofNat (fun n => 0x0A :: List.replicate (2 * n) 0x20) [0x20] 0

mutual
/-- What JSON text can carry: finite numbers but the negative zero, and objects without
a key twice. All strings consist of units with `p`. -/
def Value.Plain (p : UInt16 → Prop) : Value → Prop
  | .num n => n.isFinite = true ∧ (n.negative = true → n.word ≠ 0)
  | .str s => ∀ c ∈ s, p c
  | .arr items => PlainItems p items
  | .obj members => (members.map Prod.fst).Nodup ∧ PlainMembers p members
  | _ => True

def Value.PlainItems (p : UInt16 → Prop) : List Value → Prop
  | [] => True
  | v :: l => v.Plain p ∧ PlainItems p l

def Value.PlainMembers (p : UInt16 → Prop) : List (Str × Value) → Prop
  | [] => True
  | (k, v) :: l => (∀ c ∈ k, p c) ∧ v.Plain p ∧ PlainMembers p l
end

theorem plainMembers_iff {p : UInt16 → Prop} {l : List (Str × Value)} :
    Value.PlainMembers p l ↔ ∀ e ∈ l, (∀ c ∈ e.1, p c) ∧ e.2.Plain p := by
  induction l with
  | nil => simp [Value.PlainMembers]
  | cons e l ih => simp [Value.PlainMembers, ih, and_assoc]

mutual
theorem toDoc_ok (v : Value) : v.toDoc.Ok UInt16.toNat := by
  match v with
  | .null => trivial
  | .bool b => trivial
  | .num n =>
    unfold Value.toDoc
    split
    · exact numeral_ok n
    · trivial
  | .str s => exact (escape_spec s).1
  | .arr l => exact toItems_ok l
  | .obj l => exact toMembers_ok l

theorem toItems_ok (l : List Value) : Doc.OkItems UInt16.toNat (Value.toItems l) := by
  match l with
  | [] => trivial
  | v :: l => exact ⟨toDoc_ok v, toItems_ok l⟩

theorem toMembers_ok (l : List (Str × Value)) : Doc.OkMembers UInt16.toNat (Value.toMembers l) := by
  match l with
  | [] => trivial
  | (k, v) :: l => exact ⟨(escape_spec k).1, toDoc_ok v, toMembers_ok l⟩
end

theorem assign_new {k : Str} (v : Value) {l : List (Str × Value)} (h : k ∉ l.map Prod.fst) : assign k v l = l ++ [(k, v)] := by
  induction l with
  | nil => rfl
  | cons e l ih =>
    simp only [List.map_cons, List.mem_cons, not_or] at h
    unfold assign
    rw [if_neg (Ne.symm h.1), ih h.2]
    rfl

section
variable {p : UInt16 → Prop}

mutual
/-- A plain value is what its document is read as. -/
theorem ofDoc_toDoc (v : Value) (hv : v.Plain p) : Value.ofDoc UInt16.toNat v.toDoc = v := by
  match v with
  | .null => rfl
  | .bool b => rfl
  | .num n =>
    unfold Value.toDoc
    rw [if_pos hv.1]
    exact congrArg Value.num (ofNumeral_numeral hv.1 hv.2)
  | .str s => exact congrArg Value.str (escape_spec s).2
  | .arr l => exact congrArg Value.arr (ofItems_toItems l hv)
  | .obj l =>
    obtain ⟨hkeys, hl⟩ := hv
    exact congrArg Value.obj (ofMembers_toMembers l hl [] hkeys)

theorem ofItems_toItems (l : List Value) (hl : Value.PlainItems p l) : Value.ofItems UInt16.toNat (Value.toItems l) = l := by
  match l with
  | [] => rfl
  | v :: l =>
    obtain ⟨hv, hl⟩ := hl
    unfold Value.toItems Value.ofItems
    rw [ofDoc_toDoc v hv, ofItems_toItems l hl]

theorem ofMembers_toMembers (l : List (Str × Value)) (hl : Value.PlainMembers p l) (made : List (Str × Value))
    (hkeys : ((made ++ l).map Prod.fst).Nodup) : Value.ofMembers UInt16.toNat made (Value.toMembers l) = made ++ l := by
  match l with
  | [] => exact (List.append_nil made).symm
  | (k, v) :: l =>
    obtain ⟨-, hv, hl⟩ := hl
    have hnew : k ∉ made.map Prod.fst := by
      rw [List.map_append, List.map_cons, List.nodup_append] at hkeys
      intro hk
      exact hkeys.2.2 k hk k (List.mem_cons_self ..) rfl
    unfold Value.toMembers Value.ofMembers
    rw [(escape_spec k).2, ofDoc_toDoc v hv, assign_new v hnew, ofMembers_toMembers l hl _ (by simpa using hkeys)]
    simp
end

end

end AgentWorkflow.Lib.Js
