import Mathlib

/-!
# JSON texts

The grammar of JSON over any code units: `code` gives the number of a unit. Numerals
and strings are kept as they are written, a string without its quotes; how the units
between the quotes denote characters differs from program to program. `print` writes
a document with the same blanks, if any, after every comma and colon; reading what it
writes gives the document back.
-/

namespace AgentWorkflow.Lib.JsonText

universe u

/-- The parts of a numeral: `-`, digits, `.` with digits, `e` with sign and digits. -/
structure Numeral (α : Type u) where
  sign : List α
  int : List α
  frac : List α
  exp : List α
deriving DecidableEq

inductive Doc (α : Type u) where
  | null
  | bool (b : Bool)
  | num (n : Numeral α)
  | str (body : List α)
  | arr (items : List (Doc α))
  | obj (members : List (List α × Doc α))

/-! ### Reading -/

section Read
variable {α : Type u} (code : α → ℕ)

def isWs (c : α) : Bool := code c = 0x20 || code c = 9 || code c = 10 || code c = 13

def skipWs (t : List α) : List α := t.dropWhile (isWs code)

def isDigit (c : α) : Bool := decide (0x30 ≤ code c ∧ code c ≤ 0x39)

def isHex (c : α) : Bool :=
  decide (0x30 ≤ code c ∧ code c ≤ 0x39 ∨ 0x41 ≤ code c ∧ code c ≤ 0x46 ∨ 0x61 ≤ code c ∧ code c ≤ 0x66)

/-- An optional unit of the given codes. -/
def scanOptional (codes : List ℕ) : List α → List α × List α
  | [] => ([], [])
  | c :: t => if code c ∈ codes then ([c], t) else ([], c :: t)

def scanInt : List α → Option (List α × List α)
  | [] => none
  | c :: t =>
    if code c = 0x30 then some ([c], t)
    else if isDigit code c then some (c :: t.takeWhile (isDigit code), t.dropWhile (isDigit code))
    else none

def scanDigits (lead : List α) (t : List α) : Option (List α × List α) :=
  if t.takeWhile (isDigit code) = [] then none
  else some (lead ++ t.takeWhile (isDigit code), t.dropWhile (isDigit code))

def scanFrac (t : List α) : Option (List α × List α) :=
  match scanOptional code [0x2E] t with
  | ([], t) => some ([], t)
  | (dot, t) => scanDigits code dot t

def scanExp (t : List α) : Option (List α × List α) :=
  match scanOptional code [0x65, 0x45] t with
  | ([], t) => some ([], t)
  | (e, t) => scanDigits code (e ++ (scanOptional code [0x2B, 0x2D] t).1) (scanOptional code [0x2B, 0x2D] t).2

def scanNumeral (t : List α) : Option (Numeral α × List α) :=
  match scanInt code (scanOptional code [0x2D] t).2 with
  | none => none
  | some (int, t₁) => match scanFrac code t₁ with
    | none => none
    | some (frac, t₂) => match scanExp code t₂ with
      | none => none
      | some (exp, t₃) => some (⟨(scanOptional code [0x2D] t).1, int, frac, exp⟩, t₃)

/-- What follows a backslash: one unit, or `u` and four hexadecimal digits. -/
def isEscape (c : α) : Bool := decide (code c ∈ [0x22, 0x5C, 0x2F, 0x62, 0x66, 0x6E, 0x72, 0x74])

/-- The units of a string up to its closing quote. -/
def scanBody : List α → Option (List α × List α)
  | [] => none
  | c :: t =>
    if code c = 0x22 then some ([], t)
    else if code c < 0x20 then none
    else if code c = 0x5C then
      match t with
      | e :: t =>
        if isEscape code e then (scanBody t).map fun p => (c :: e :: p.1, p.2)
        else match t with
          | h₁ :: h₂ :: h₃ :: h₄ :: t =>
            if code e = 0x75 ∧ [h₁, h₂, h₃, h₄].all (isHex code) then
              (scanBody t).map fun p => (c :: e :: h₁ :: h₂ :: h₃ :: h₄ :: p.1, p.2)
            else none
          | _ => none
      | [] => none
    else (scanBody t).map fun p => (c :: p.1, p.2)

def scanWord (codes : List ℕ) (v : Doc α) (t : List α) : Option (Doc α × List α) :=
  if (t.take codes.length).map code = codes then some (v, t.drop codes.length) else none

section Loop
variable (value : List α → Option (Doc α × List α))

/-- The rest of an array after `[`, when it is not empty. -/
def scanItems : ℕ → List α → Option (List (Doc α) × List α)
  | 0, _ => none
  | n + 1, t => match value (skipWs code t) with
    | none => none
    | some (v, t) => match skipWs code t with
      | [] => none
      | c :: t =>
        if code c = 0x2C then (scanItems n t).map fun p => (v :: p.1, p.2)
        else if code c = 0x5D then some ([v], t)
        else none

/-- One member: a string, `:` and a value. -/
def scanMember (t : List α) : Option ((List α × Doc α) × List α) :=
  match skipWs code t with
  | [] => none
  | c :: t =>
    if code c = 0x22 then
      match scanBody code t with
      | none => none
      | some (k, t) => match skipWs code t with
        | [] => none
        | c :: t =>
          if code c = 0x3A then (value (skipWs code t)).map fun p => ((k, p.1), p.2) else none
    else none

/-- The rest of an object after an opening brace, when it is not empty. -/
def scanMembers : ℕ → List α → Option (List (List α × Doc α) × List α)
  | 0, _ => none
  | n + 1, t => match scanMember code value t with
    | none => none
    | some (m, t) => match skipWs code t with
      | [] => none
      | c :: t =>
        if code c = 0x2C then (scanMembers n t).map fun p => (m :: p.1, p.2)
        else if code c = 0x7D then some ([m], t)
        else none

end Loop

/-- Whether the text starts, after blanks, with the closing unit `close`. -/
def closes (close : ℕ) (t : List α) : Option (List α) :=
  match skipWs code t with
  | c :: t => if code c = close then some t else none
  | [] => none

/-- A value; every nesting takes one unit of fuel, which the text's length exceeds. -/
def scanValue : ℕ → List α → Option (Doc α × List α)
  | 0, _ => none
  | _ + 1, [] => none
  | n + 1, c :: t =>
    if code c = 0x7B then
      match closes code 0x7D t with
      | some t => some (.obj [], t)
      | none => (scanMembers code (scanValue n) n t).map fun p => (.obj p.1, p.2)
    else if code c = 0x5B then
      match closes code 0x5D t with
      | some t => some (.arr [], t)
      | none => (scanItems code (scanValue n) n t).map fun p => (.arr p.1, p.2)
    else if code c = 0x22 then (scanBody code t).map fun p => (.str p.1, p.2)
    else if code c = 0x74 then scanWord code [0x74, 0x72, 0x75, 0x65] (.bool true) (c :: t)
    else if code c = 0x66 then scanWord code [0x66, 0x61, 0x6C, 0x73, 0x65] (.bool false) (c :: t)
    else if code c = 0x6E then scanWord code [0x6E, 0x75, 0x6C, 0x6C] .null (c :: t)
    else (scanNumeral code (c :: t)).map fun p => (.num p.1, p.2)

def parse (t : List α) : Option (Doc α) :=
  match scanValue code (t.length + 1) (skipWs code t) with
  | none => none
  | some (v, t) => if skipWs code t = [] then some v else none

end Read

/-! ### Depth -/

mutual
/-- The nesting of arrays and objects. -/
def Doc.depth {α : Type u} : Doc α → ℕ
  | .arr items => 1 + depthItems items
  | .obj members => 1 + depthMembers members
  | _ => 0

def Doc.depthItems {α : Type u} : List (Doc α) → ℕ
  | [] => 0
  | v :: l => max v.depth (depthItems l)

def Doc.depthMembers {α : Type u} : List (List α × Doc α) → ℕ
  | [] => 0
  | (_, v) :: l => max v.depth (depthMembers l)
end

/-! ### Numerals -/

section Form
variable {α : Type u} (code : α → ℕ)

def Digits (t : List α) : Prop := t ≠ [] ∧ ∀ c ∈ t, isDigit code c

def Numeral.text (n : Numeral α) : List α := n.sign ++ n.int ++ n.frac ++ n.exp

/-- The grammar of a numeral. -/
structure Numeral.Ok (n : Numeral α) : Prop where
  sign : n.sign = [] ∨ ∃ c, n.sign = [c] ∧ code c = 0x2D
  int : (∃ c, n.int = [c] ∧ code c = 0x30) ∨ ∃ c t, n.int = c :: t ∧ code c ≠ 0x30 ∧ Digits code (c :: t)
  frac : n.frac = [] ∨ ∃ c t, n.frac = c :: t ∧ code c = 0x2E ∧ Digits code t
  exp : n.exp = [] ∨ ∃ c s t, n.exp = c :: (s ++ t) ∧ (code c = 0x65 ∨ code c = 0x45) ∧
    (s = [] ∨ ∃ d, s = [d] ∧ (code d = 0x2B ∨ code d = 0x2D)) ∧ Digits code t

/-- The text does not go on with one of these codes. -/
def HeadNotIn (codes : List ℕ) (t : List α) : Prop := ∀ c ∈ t.head?, code c ∉ codes

def HeadNotDigit (t : List α) : Prop := ∀ c ∈ t.head?, isDigit code c = false

/-- What may follow a numeral: no digit, point or exponent. -/
structure Ends (t : List α) : Prop where
  digit : HeadNotDigit code t
  mark : HeadNotIn code [0x2E, 0x65, 0x45] t

variable {code}

theorem scanOptional_nil {codes : List ℕ} {t : List α} (h : HeadNotIn code codes t) :
    scanOptional code codes t = ([], t) := by
  cases t with
  | nil => rfl
  | cons c t => exact if_neg (h c rfl)

theorem scanOptional_cons {codes : List ℕ} {c : α} (t : List α) (h : code c ∈ codes) :
    scanOptional code codes (c :: t) = ([c], t) :=
  if_pos h

theorem takeWhile_digits {s t : List α} (hs : ∀ c ∈ s, isDigit code c) (ht : HeadNotDigit code t) :
    (s ++ t).takeWhile (isDigit code) = s ∧ (s ++ t).dropWhile (isDigit code) = t := by
  induction s with
  | nil =>
    cases t with
    | nil => exact ⟨rfl, rfl⟩
    | cons c t =>
      have hc : isDigit code c = false := ht c rfl
      simp [hc]
  | cons c s ih =>
    have hc : isDigit code c = true := hs c (List.mem_cons_self ..)
    obtain ⟨h₁, h₂⟩ := ih fun d hd => hs d (List.mem_cons_of_mem _ hd)
    simp [hc, h₁, h₂]

theorem scanDigits_append (lead : List α) {s t : List α} (hs : Digits code s) (ht : HeadNotDigit code t) :
    scanDigits code lead (s ++ t) = some (lead ++ s, t) := by
  obtain ⟨h₁, h₂⟩ := takeWhile_digits hs.2 ht
  unfold scanDigits
  rw [h₁, h₂, if_neg hs.1]

/-- A digit is none of the marks of a numeral. -/
theorem isDigit_not_mark {c : α} (h : isDigit code c) : code c ∉ [0x2B, 0x2D, 0x2E, 0x65, 0x45] := by
  simp only [isDigit, decide_eq_true_eq] at h
  simp only [List.mem_cons, List.not_mem_nil, or_false]
  omega

theorem Digits.headNotIn {s : List α} (hs : Digits code s) (t : List α) {codes : List ℕ}
    (hc : ∀ n ∈ codes, n ∈ [0x2B, 0x2D, 0x2E, 0x65, 0x45]) : HeadNotIn code codes (s ++ t) := by
  cases s with
  | nil => exact (hs.1 rfl).elim
  | cons d s =>
    rintro c hd hmem
    cases hd
    exact isDigit_not_mark (hs.2 d (List.mem_cons_self ..)) (hc _ hmem)

theorem scanExp_append {n : Numeral α} (hn : n.Ok code) {t : List α} (ht : Ends code t) :
    scanExp code (n.exp ++ t) = some (n.exp, t) := by
  rcases hn.exp with he | ⟨c, s, d, he, hc, hs, hd⟩
  · rw [he, List.nil_append]
    unfold scanExp
    rw [scanOptional_nil fun c hc hm => ht.mark c hc (by simp_all)]
  · rw [he, List.cons_append, List.append_assoc]
    unfold scanExp
    rw [scanOptional_cons _ (by simpa using hc)]
    dsimp only
    have hsign : scanOptional code [0x2B, 0x2D] (s ++ (d ++ t)) = (s, d ++ t) := by
      rcases hs with hs | ⟨x, hs, hx⟩
      · rw [hs, List.nil_append]
        exact scanOptional_nil (hd.headNotIn t (by simp))
      · rw [hs]
        exact scanOptional_cons _ (by simpa using hx)
    rw [hsign, scanDigits_append _ hd ht.digit]
    rfl

theorem scanFrac_append {n : Numeral α} (hn : n.Ok code) {t : List α} (ht : HeadNotDigit code t)
    (hdot : HeadNotIn code [0x2E] t) : scanFrac code (n.frac ++ t) = some (n.frac, t) := by
  rcases hn.frac with hf | ⟨c, d, hf, hc, hd⟩
  · rw [hf, List.nil_append]
    unfold scanFrac
    rw [scanOptional_nil hdot]
  · rw [hf, List.cons_append]
    unfold scanFrac
    rw [scanOptional_cons _ (by simpa using hc)]
    dsimp only
    rw [scanDigits_append _ hd ht]
    rfl

theorem scanInt_append {n : Numeral α} (hn : n.Ok code) {t : List α} (ht : HeadNotDigit code t) :
    scanInt code (n.int ++ t) = some (n.int, t) := by
  rcases hn.int with ⟨c, hi, hc⟩ | ⟨c, d, hi, hc, hd⟩
  · rw [hi]
    exact if_pos hc
  · obtain ⟨h₁, h₂⟩ := takeWhile_digits (fun x hx => hd.2 x (List.mem_cons_of_mem _ hx)) ht
    rw [hi, List.cons_append]
    unfold scanInt
    simp only [if_neg hc, if_pos (hd.2 c (List.mem_cons_self ..)), h₁, h₂]

theorem isDigit_of_zero {c : α} (h : code c = 0x30) : isDigit code c := by
  simp [isDigit, h]

/-- The first unit of the unsigned part is a digit. -/
theorem Numeral.Ok.int_head {n : Numeral α} (hn : n.Ok code) : ∃ c t, n.int = c :: t ∧ isDigit code c := by
  rcases hn.int with ⟨c, hi, hc⟩ | ⟨c, t, hi, -, hd⟩
  · exact ⟨c, [], hi, isDigit_of_zero hc⟩
  · exact ⟨c, t, hi, hd.2 c (List.mem_cons_self ..)⟩

/-- The exponent, or what follows it, starts with no digit and no point. -/
theorem Numeral.Ok.exp_head {n : Numeral α} (hn : n.Ok code) {t : List α} (ht : Ends code t) :
    HeadNotDigit code (n.exp ++ t) ∧ HeadNotIn code [0x2E] (n.exp ++ t) := by
  rcases hn.exp with he | ⟨c, s, d, he, hc, -⟩
  · rw [he, List.nil_append]
    exact ⟨ht.digit, fun c hc hm => ht.mark c hc (by simp_all)⟩
  · rw [he]
    refine ⟨fun x hx => ?_, fun x hx hm => ?_⟩
    · cases hx
      simp only [isDigit, decide_eq_false_iff_not]
      omega
    · cases hx
      simp only [List.mem_singleton] at hm
      omega

theorem Numeral.Ok.frac_head {n : Numeral α} (hn : n.Ok code) {t : List α} (ht : Ends code t) :
    HeadNotDigit code (n.frac ++ (n.exp ++ t)) := by
  rcases hn.frac with hf | ⟨c, d, hf, hc, -⟩
  · rw [hf, List.nil_append]
    exact (hn.exp_head ht).1
  · rw [hf]
    intro x hx
    cases hx
    simp [isDigit, hc]

theorem scanNumeral_append {n : Numeral α} (hn : n.Ok code) {t : List α} (ht : Ends code t) :
    scanNumeral code (n.text ++ t) = some (n, t) := by
  have hsign : scanOptional code [0x2D] (n.text ++ t) = (n.sign, n.int ++ (n.frac ++ (n.exp ++ t))) := by
    simp only [Numeral.text, List.append_assoc]
    rcases hn.sign with hs | ⟨c, hs, hc⟩
    · rw [hs, List.nil_append]
      obtain ⟨c, d, hi, hc⟩ := hn.int_head
      rw [hi]
      refine scanOptional_nil fun x hx hm => isDigit_not_mark hc ?_
      cases hx
      simp_all
    · rw [hs]
      exact scanOptional_cons _ (by simpa using hc)
  obtain ⟨hdigit, hdot⟩ := hn.exp_head ht
  unfold scanNumeral
  rw [hsign]
  simp only [scanInt_append hn (hn.frac_head ht), scanFrac_append hn hdigit hdot, scanExp_append hn ht]

theorem Numeral.Ok.head {n : Numeral α} (hn : n.Ok code) :
    ∃ c t, n.text = c :: t ∧ (code c = 0x2D ∨ isDigit code c) := by
  obtain ⟨d, u, hi, hd⟩ := hn.int_head
  rcases hn.sign with hs | ⟨c, hs, hc⟩
  · exact ⟨d, u ++ (n.frac ++ n.exp), by simp [Numeral.text, hs, hi], Or.inr hd⟩
  · exact ⟨c, n.int ++ (n.frac ++ n.exp), by simp [Numeral.text, hs], Or.inl hc⟩

/-! ### Strings -/

variable (code) in
/-- The text between the quotes of a string. -/
inductive Body : List α → Prop
  | nil : Body []
  | plain {c : α} {t : List α} : 0x20 ≤ code c → code c ≠ 0x22 → code c ≠ 0x5C → Body t → Body (c :: t)
  | escape {c e : α} {t : List α} : code c = 0x5C → isEscape code e → Body t → Body (c :: e :: t)
  | unicode {c e h₁ h₂ h₃ h₄ : α} {t : List α} : code c = 0x5C → code e = 0x75 →
      [h₁, h₂, h₃, h₄].all (isHex code) → Body t → Body (c :: e :: h₁ :: h₂ :: h₃ :: h₄ :: t)

theorem Body.append {s t : List α} (hs : Body code s) (ht : Body code t) : Body code (s ++ t) := by
  induction hs with
  | nil => exact ht
  | plain h₁ h₂ h₃ _ ih => exact .plain h₁ h₂ h₃ ih
  | escape h₁ h₂ _ ih => exact .escape h₁ h₂ ih
  | unicode h₁ h₂ h₃ _ ih => exact .unicode h₁ h₂ h₃ ih

theorem scanBody_append {s t : List α} {q : α} (hs : Body code s) (hq : code q = 0x22) :
    scanBody code (s ++ q :: t) = some (s, t) := by
  induction hs with
  | nil =>
    rw [List.nil_append]
    unfold scanBody
    exact if_pos hq
  | plain h₁ h₂ h₃ _ ih =>
    rw [List.cons_append]
    unfold scanBody
    simp only [if_neg h₂, if_neg (Nat.not_lt.mpr h₁), if_neg h₃, ih, Option.map_some]
  | escape h₁ h₂ _ ih =>
    rw [List.cons_append, List.cons_append]
    unfold scanBody
    simp [h₁, h₂, ih]
  | @unicode c e a₁ a₂ a₃ a₄ t h₁ h₂ h₃ _ ih =>
    have hesc : isEscape code e = false := by simp [isEscape, h₂]
    have hhex : isHex code a₁ = true ∧ isHex code a₂ = true ∧ isHex code a₃ = true ∧ isHex code a₄ = true := by
      simpa using h₃
    simp only [List.cons_append]
    unfold scanBody
    simp [h₁, h₂, hesc, hhex, ih]

theorem scanBody_ok {t s r : List α} (h : scanBody code t = some (s, r)) : Body code s := by
  fun_induction scanBody code t generalizing s r with
  | case1 => cases h
  | case2 => cases h; exact .nil
  | case3 => cases h
  | case4 c _ _ hc e t he ih =>
    obtain ⟨p, hp, heq⟩ := Option.map_eq_some_iff.mp h
    cases heq
    exact .escape hc he (ih hp)
  | case5 c _ _ hc e _ h₁ h₂ h₃ h₄ t hu ih =>
    obtain ⟨p, hp, heq⟩ := Option.map_eq_some_iff.mp h
    cases heq
    exact .unicode hc hu.1 hu.2 (ih hp)
  | case6 => cases h
  | case7 => cases h
  | case8 => cases h
  | case9 c t h₁ h₂ h₃ ih =>
    obtain ⟨p, hp, heq⟩ := Option.map_eq_some_iff.mp h
    cases heq
    exact .plain (Nat.not_lt.mp h₂) h₁ h₃ (ih hp)

/-! ### Well-formed documents -/

section
variable (code)

mutual
/-- Numerals and strings follow the grammar. -/
def Doc.Ok : Doc α → Prop
  | .num n => n.Ok code
  | .str b => Body code b
  | .arr items => OkItems items
  | .obj members => OkMembers members
  | _ => True

def Doc.OkItems : List (Doc α) → Prop
  | [] => True
  | v :: l => v.Ok ∧ OkItems l

def Doc.OkMembers : List (List α × Doc α) → Prop
  | [] => True
  | (k, v) :: l => Body code k ∧ v.Ok ∧ OkMembers l
end

end

theorem digits_takeWhile {lead t s r : List α} (h : scanDigits code lead t = some (s, r)) :
    ∃ d, s = lead ++ d ∧ Digits code d := by
  unfold scanDigits at h
  split at h
  · cases h
  · next hne =>
    cases h
    exact ⟨_, rfl, hne, fun c hc => List.mem_takeWhile_imp hc⟩

variable (code) in
theorem scanOptional_cases (codes : List ℕ) (t : List α) :
    (scanOptional code codes t).1 = [] ∨ ∃ c, (scanOptional code codes t).1 = [c] ∧ code c ∈ codes := by
  cases t with
  | nil => exact Or.inl rfl
  | cons c t =>
    unfold scanOptional
    dsimp only
    split
    · next h => exact Or.inr ⟨c, rfl, h⟩
    · exact Or.inl rfl

theorem scanInt_ok {t s r : List α} (h : scanInt code t = some (s, r)) :
    (∃ c, s = [c] ∧ code c = 0x30) ∨ ∃ c d, s = c :: d ∧ code c ≠ 0x30 ∧ Digits code (c :: d) := by
  cases t with
  | nil => cases h
  | cons c t =>
    unfold scanInt at h
    dsimp only at h
    split at h
    · next hc =>
      cases h
      exact Or.inl ⟨c, rfl, hc⟩
    · next hc =>
      split at h
      · next hd =>
        cases h
        refine Or.inr ⟨c, _, rfl, hc, by simp, fun x hx => ?_⟩
        rcases List.mem_cons.mp hx with rfl | hx
        · exact hd
        · exact List.mem_takeWhile_imp hx
      · cases h

theorem scanFrac_ok {t s r : List α} (h : scanFrac code t = some (s, r)) :
    s = [] ∨ ∃ c d, s = c :: d ∧ code c = 0x2E ∧ Digits code d := by
  unfold scanFrac at h
  rcases scanOptional_cases code [0x2E] t with hs | ⟨c, hs, hc⟩
  · obtain ⟨t', ht⟩ : ∃ t', scanOptional code [0x2E] t = ([], t') := ⟨_, Prod.ext hs rfl⟩
    rw [ht] at h
    cases h
    exact Or.inl rfl
  · obtain ⟨t', ht⟩ : ∃ t', scanOptional code [0x2E] t = ([c], t') := ⟨_, Prod.ext hs rfl⟩
    rw [ht] at h
    obtain ⟨d, rfl, hd⟩ := digits_takeWhile h
    exact Or.inr ⟨c, d, rfl, by simpa using hc, hd⟩

theorem scanExp_ok {t s r : List α} (h : scanExp code t = some (s, r)) :
    s = [] ∨ ∃ c u d, s = c :: (u ++ d) ∧ (code c = 0x65 ∨ code c = 0x45) ∧
      (u = [] ∨ ∃ x, u = [x] ∧ (code x = 0x2B ∨ code x = 0x2D)) ∧ Digits code d := by
  unfold scanExp at h
  rcases scanOptional_cases code [0x65, 0x45] t with hs | ⟨c, hs, hc⟩
  · obtain ⟨t', ht⟩ : ∃ t', scanOptional code [0x65, 0x45] t = ([], t') := ⟨_, Prod.ext hs rfl⟩
    rw [ht] at h
    cases h
    exact Or.inl rfl
  · obtain ⟨t', ht⟩ : ∃ t', scanOptional code [0x65, 0x45] t = ([c], t') := ⟨_, Prod.ext hs rfl⟩
    rw [ht] at h
    dsimp only at h
    obtain ⟨d, rfl, hd⟩ := digits_takeWhile h
    refine Or.inr ⟨c, (scanOptional code [0x2B, 0x2D] t').1, d, rfl, by simpa using hc, ?_, hd⟩
    simpa using scanOptional_cases code [0x2B, 0x2D] t'

theorem scanNumeral_ok {t r : List α} {n : Numeral α} (h : scanNumeral code t = some (n, r)) : n.Ok code := by
  unfold scanNumeral at h
  split at h
  · cases h
  · next hint =>
    split at h
    · cases h
    · next hfrac =>
      split at h
      · cases h
      · next hexp =>
        cases h
        exact ⟨by simpa using scanOptional_cases code [0x2D] t, scanInt_ok hint, scanFrac_ok hfrac,
          scanExp_ok hexp⟩

section Loop
variable {value : List α → Option (Doc α × List α)} (hvalue : ∀ t v r, value t = some (v, r) → v.Ok code)
include hvalue

theorem scanItems_ok (n : ℕ) {t r : List α} {l : List (Doc α)} (h : scanItems code value n t = some (l, r)) :
    Doc.OkItems code l := by
  induction n generalizing t r l with
  | zero => cases h
  | succ n ih =>
    unfold scanItems at h
    split at h
    · cases h
    · next v t₁ hv =>
      split at h
      · cases h
      · split at h
        · obtain ⟨p, hp, heq⟩ := Option.map_eq_some_iff.mp h
          cases heq
          exact ⟨hvalue _ _ _ hv, ih hp⟩
        · split at h
          · cases h
            exact ⟨hvalue _ _ _ hv, trivial⟩
          · cases h

theorem scanMember_ok {t r : List α} {m : List α × Doc α} (h : scanMember code value t = some (m, r)) :
    Body code m.1 ∧ m.2.Ok code := by
  unfold scanMember at h
  split at h
  · cases h
  · split at h
    · split at h
      · cases h
      · next hk =>
        split at h
        · cases h
        · split at h
          · obtain ⟨p, hp, heq⟩ := Option.map_eq_some_iff.mp h
            cases heq
            exact ⟨scanBody_ok hk, hvalue _ _ _ hp⟩
          · cases h
    · cases h

theorem scanMembers_ok (n : ℕ) {t r : List α} {l : List (List α × Doc α)}
    (h : scanMembers code value n t = some (l, r)) : Doc.OkMembers code l := by
  induction n generalizing t r l with
  | zero => cases h
  | succ n ih =>
    unfold scanMembers at h
    split at h
    · cases h
    · next hm =>
      obtain ⟨hk, hv⟩ := scanMember_ok hvalue hm
      split at h
      · cases h
      · split at h
        · obtain ⟨p, hp, heq⟩ := Option.map_eq_some_iff.mp h
          cases heq
          exact ⟨hk, hv, ih hp⟩
        · split at h
          · cases h
            exact ⟨hk, hv, trivial⟩
          · cases h

end Loop

theorem scanWord_ok {codes : List ℕ} {v w : Doc α} {t r : List α} (hv : v.Ok code)
    (h : scanWord code codes v t = some (w, r)) : w.Ok code := by
  unfold scanWord at h
  split at h
  · cases h
    exact hv
  · cases h

theorem scanValue_ok (n : ℕ) {t r : List α} {v : Doc α} (h : scanValue code n t = some (v, r)) : v.Ok code := by
  induction n generalizing t r v with
  | zero => cases h
  | succ n ih =>
    have hvalue : ∀ t v r, scanValue code n t = some (v, r) → v.Ok code := fun t v r h => ih h
    cases t with
    | nil => cases h
    | cons c t =>
      unfold scanValue at h
      repeat' split at h
      · cases h
        exact trivial
      · obtain ⟨p, hp, heq⟩ := Option.map_eq_some_iff.mp h
        cases heq
        exact scanMembers_ok hvalue n hp
      · cases h
        exact trivial
      · obtain ⟨p, hp, heq⟩ := Option.map_eq_some_iff.mp h
        cases heq
        exact scanItems_ok hvalue n hp
      · obtain ⟨p, hp, heq⟩ := Option.map_eq_some_iff.mp h
        cases heq
        exact scanBody_ok hp
      · refine scanWord_ok ?_ h
        trivial
      · refine scanWord_ok ?_ h
        trivial
      · refine scanWord_ok ?_ h
        trivial
      · obtain ⟨p, hp, heq⟩ := Option.map_eq_some_iff.mp h
        cases heq
        exact scanNumeral_ok hp

/-- What is read is well formed. -/
theorem parse_ok {t : List α} {d : Doc α} (h : parse code t = some d) : d.Ok code := by
  unfold parse at h
  split at h
  · cases h
  · next hv =>
    split at h
    · cases h
      exact scanValue_ok _ hv
    · cases h

end Form

/-! ### Writing -/

section Write
variable {α : Type u} (unit : ℕ → α) (gap : List α)

mutual
/-- The document, with `gap` after every comma and colon. -/
def Doc.print : Doc α → List α
  | .null => [0x6E, 0x75, 0x6C, 0x6C].map unit
  | .bool true => [0x74, 0x72, 0x75, 0x65].map unit
  | .bool false => [0x66, 0x61, 0x6C, 0x73, 0x65].map unit
  | .num n => n.text
  | .str b => unit 0x22 :: (b ++ [unit 0x22])
  | .arr [] => [unit 0x5B, unit 0x5D]
  | .arr (v :: l) => unit 0x5B :: (v.print ++ printItems l)
  | .obj [] => [unit 0x7B, unit 0x7D]
  | .obj ((k, v) :: l) =>
    unit 0x7B :: unit 0x22 :: (k ++ unit 0x22 :: unit 0x3A :: (gap ++ (v.print ++ printMembers l)))

/-- The items after the first one, and the end of the array. -/
def Doc.printItems : List (Doc α) → List α
  | [] => [unit 0x5D]
  | v :: l => unit 0x2C :: (gap ++ (v.print ++ printItems l))

def Doc.printMembers : List (List α × Doc α) → List α
  | [] => [unit 0x7D]
  | (k, v) :: l =>
    unit 0x2C :: (gap ++ unit 0x22 :: (k ++ unit 0x22 :: unit 0x3A :: (gap ++ (v.print ++ printMembers l))))
end

end Write

section Print
variable {α : Type u} {code : α → ℕ} {unit : ℕ → α} {gap : List α}

/-- `unit n` is the unit of an ASCII code. -/
def Ascii (code : α → ℕ) (unit : ℕ → α) : Prop := ∀ n < 128, code (unit n) = n

def Blank (code : α → ℕ) (gap : List α) : Prop := ∀ c ∈ gap, isWs code c

/-- What follows a value in a printed document. -/
def Follows (code : α → ℕ) (t : List α) : Prop := ∀ c ∈ t.head?, code c = 0x2C ∨ code c = 0x5D ∨ code c = 0x7D

theorem Follows.ends {t : List α} (h : Follows code t) : Ends code t := by
  refine ⟨fun c hc => ?_, fun c hc hm => ?_⟩
  · have hcode := h c hc
    simp only [isDigit, decide_eq_false_iff_not]
    omega
  · have hcode := h c hc
    simp only [List.mem_cons, List.not_mem_nil, or_false] at hm
    omega

theorem numeral_head {n : Numeral α} (hn : n.Ok code) :
    ∃ c t, n.text = c :: t ∧ code c ∉ [0x20, 9, 10, 13, 0x22, 0x5B, 0x5D, 0x7B, 0x7D, 0x74, 0x66, 0x6E] := by
  obtain ⟨c, t, hct, hc⟩ := hn.head
  refine ⟨c, t, hct, ?_⟩
  simp only [isDigit, decide_eq_true_eq] at hc
  simp only [List.mem_cons, List.not_mem_nil, or_false]
  omega

theorem isWs_false {c : α} (h : code c ∉ [0x20, 9, 10, 13]) : isWs code c = false := by
  simp only [List.mem_cons, List.not_mem_nil, or_false, not_or] at h
  simp [isWs, h]

theorem skipWs_cons {c : α} (t : List α) (h : isWs code c = false) : skipWs code (c :: t) = c :: t := by
  simp [skipWs, h]

theorem skipWs_gap (hgap : Blank code gap) (t : List α) : skipWs code (gap ++ t) = skipWs code t := by
  induction gap with
  | nil => rfl
  | cons c gap ih =>
    have hc : isWs code c = true := hgap c (List.mem_cons_self ..)
    rw [← ih fun d hd => hgap d (List.mem_cons_of_mem _ hd)]
    simp [skipWs, hc]

section
variable (hu : Ascii code unit)
include hu

theorem Ascii.ne {m n : ℕ} (hm : m < 128) (h : m ≠ n) : code (unit m) ≠ n := by
  rw [hu m hm]
  exact h

theorem Ascii.skipWs {m : ℕ} (hm : m < 128) (h : m ∉ [0x20, 9, 10, 13]) (t : List α) :
    skipWs code (unit m :: t) = unit m :: t := by
  refine skipWs_cons t (isWs_false ?_)
  rwa [hu m hm]

theorem follows_printItems (l : List (Doc α)) (t : List α) : Follows code (Doc.printItems unit gap l ++ t) := by
  cases l with
  | nil => intro c hc; cases hc; exact Or.inr (Or.inl (hu 0x5D (by decide)))
  | cons v l => intro c hc; cases hc; exact Or.inl (hu 0x2C (by decide))

theorem follows_printMembers (l : List (List α × Doc α)) (t : List α) :
    Follows code (Doc.printMembers unit gap l ++ t) := by
  cases l with
  | nil => intro c hc; cases hc; exact Or.inr (Or.inr (hu 0x7D (by decide)))
  | cons v l => intro c hc; cases hc; exact Or.inl (hu 0x2C (by decide))

/-- The first unit of a value is no blank and ends nothing. -/
theorem print_head (gap : List α) {d : Doc α} (hd : d.Ok code) :
    ∃ c t, d.print unit gap = c :: t ∧ isWs code c = false ∧ code c ≠ 0x5D ∧ code c ≠ 0x7D := by
  have hfirst : ∀ (m : ℕ) (t : List α), m < 128 → m ∉ [0x20, 9, 10, 13, 0x5D, 0x7D] →
      ∃ c r, unit m :: t = c :: r ∧ isWs code c = false ∧ code c ≠ 0x5D ∧ code c ≠ 0x7D := by
    intro m t hm hne
    simp only [List.mem_cons, List.not_mem_nil, or_false, not_or] at hne
    refine ⟨_, _, rfl, isWs_false ?_, hu.ne hm hne.2.2.2.2.1, hu.ne hm hne.2.2.2.2.2⟩
    rw [hu m hm]
    simp [hne]
  cases d with
  | null => exact hfirst 0x6E _ (by decide) (by decide)
  | bool b =>
    cases b with
    | false => exact hfirst 0x66 _ (by decide) (by decide)
    | true => exact hfirst 0x74 _ (by decide) (by decide)
  | str b => exact hfirst 0x22 _ (by decide) (by decide)
  | num n =>
    obtain ⟨c, t, hct, hc⟩ := numeral_head hd
    simp only [List.mem_cons, List.not_mem_nil, or_false, not_or] at hc
    refine ⟨c, t, hct, isWs_false ?_, ?_⟩
    · simp [hc]
    · simp [hc]
  | arr l => cases l <;> exact hfirst 0x5B _ (by decide) (by decide)
  | obj l => cases l <;> exact hfirst 0x7B _ (by decide) (by decide)

theorem skipWs_print (gap : List α) {d : Doc α} (hd : d.Ok code) (t : List α) :
    skipWs code (d.print unit gap ++ t) = d.print unit gap ++ t := by
  obtain ⟨c, r, hc, hws, -⟩ := print_head hu gap hd
  rw [hc, List.cons_append]
  exact skipWs_cons _ hws

theorem closes_print {d : Doc α} (hd : d.Ok code) (t : List α) :
    closes code 0x5D (d.print unit gap ++ t) = none := by
  obtain ⟨c, r, hc, hws, hne, -⟩ := print_head hu gap hd
  unfold closes
  rw [skipWs_print hu gap hd, hc]
  exact if_neg hne

theorem closes_quote (t : List α) : closes code 0x7D (unit 0x22 :: t) = none := by
  unfold closes
  rw [hu.skipWs (by decide) (by decide)]
  exact if_neg (hu.ne (by decide) (by decide))

theorem scanWord_print {w : List ℕ} (hw : ∀ n ∈ w, n < 128) (v : Doc α) (t : List α) :
    scanWord code w v (w.map unit ++ t) = some (v, t) := by
  have hcodes : (w.map unit).map code = w := by
    rw [List.map_map]
    exact (List.map_congr_left fun n hn => hu n (hw n hn)).trans (List.map_id w)
  unfold scanWord
  rw [List.take_left' (List.length_map ..), List.drop_left' (List.length_map ..), hcodes]
  exact if_pos rfl

end

theorem length_lt_printItems (unit : ℕ → α) (gap : List α) (l : List (Doc α)) : l.length < (Doc.printItems unit gap l).length := by
  induction l with
  | nil => simp [Doc.printItems]
  | cons v l ih =>
    simp only [Doc.printItems, List.length_cons, List.length_append]
    omega

theorem length_lt_printMembers (unit : ℕ → α) (gap : List α) (l : List (List α × Doc α)) : l.length < (Doc.printMembers unit gap l).length := by
  induction l with
  | nil => simp [Doc.printMembers]
  | cons m l ih =>
    simp only [Doc.printMembers, List.length_cons, List.length_append]
    omega

theorem scanValue_num {n : ℕ} {m : Numeral α} (hm : m.Ok code) {t : List α} (ht : Follows code t) :
    scanValue code (n + 1) (m.text ++ t) = some (.num m, t) := by
  obtain ⟨c, r, hc, hne⟩ := numeral_head hm
  have hscan := scanNumeral_append hm ht.ends
  rw [hc, List.cons_append] at hscan
  simp only [List.mem_cons, List.not_mem_nil, or_false, not_or] at hne
  rw [hc, List.cons_append]
  unfold scanValue
  simp only [hne, if_false, hscan, Option.map_some]

theorem scanValue_word {n m : ℕ} {w : List ℕ} {v : Doc α} (hu : Ascii code unit) (t : List α)
    (hw : ∀ k ∈ w, k < 128)
    (hv : (m = 0x74 ∧ w = [0x72, 0x75, 0x65] ∧ v = .bool true) ∨
      (m = 0x66 ∧ w = [0x61, 0x6C, 0x73, 0x65] ∧ v = .bool false) ∨ (m = 0x6E ∧ w = [0x75, 0x6C, 0x6C] ∧ v = .null)) :
    scanValue code (n + 1) ((m :: w).map unit ++ t) = some (v, t) := by
  have hm : m < 128 := by omega
  have hcode : code (unit m) = m := hu m hm
  have hword := scanWord_print hu (w := m :: w) (by simpa using ⟨hm, hw⟩) v t
  rw [List.map_cons, List.cons_append] at hword ⊢
  unfold scanValue
  rcases hv with ⟨rfl, rfl, rfl⟩ | ⟨rfl, rfl, rfl⟩ | ⟨rfl, rfl, rfl⟩
  · simp only [hcode, hword]
    rfl
  · simp only [hcode, hword]
    rfl
  · simp only [hcode, hword]
    rfl

section
variable (hu : Ascii code unit) (hgap : Blank code gap)
include hu hgap

/-- Reading a member that starts with the quote of its key. -/
theorem scanMember_print {value : List α → Option (Doc α × List α)} {k : List α} {v : Doc α}
    {s t : List α} (hs : Blank code s) (hk : Body code k) (hok : v.Ok code)
    (hv : value (v.print unit gap ++ t) = some (v, t)) :
    scanMember code value (s ++ unit 0x22 :: (k ++ unit 0x22 :: unit 0x3A :: (gap ++ (v.print unit gap ++ t)))) =
      some ((k, v), t) := by
  have hquote : code (unit 0x22) = 0x22 := hu _ (by decide)
  unfold scanMember
  rw [skipWs_gap hs, hu.skipWs (by decide) (by decide)]
  dsimp only
  rw [if_pos hquote, scanBody_append hk hquote]
  dsimp only
  rw [hu.skipWs (by decide) (by decide)]
  dsimp only
  rw [if_pos (hu _ (by decide)), skipWs_gap hgap, skipWs_print hu gap hok, hv]
  rfl

set_option linter.unusedSectionVars false in
mutual
/-- A printed value is read back, whatever comes after it. -/
theorem scanValue_print (d : Doc α) (hd : d.Ok code) (n : ℕ) (t : List α) (hn : (d.print unit gap).length ≤ n)
    (ht : Follows code t) : scanValue code n (d.print unit gap ++ t) = some (d, t) := by
  obtain ⟨n, rfl⟩ : ∃ m, n = m + 1 := by
    obtain ⟨c, r, hc, -⟩ := print_head hu gap hd
    rw [hc, List.length_cons] at hn
    exact ⟨n - 1, by omega⟩
  match d with
  | .null => exact scanValue_word hu t (by decide) (Or.inr (Or.inr ⟨rfl, rfl, rfl⟩))
  | .bool true => exact scanValue_word hu t (by decide) (Or.inl ⟨rfl, rfl, rfl⟩)
  | .bool false => exact scanValue_word hu t (by decide) (Or.inr (Or.inl ⟨rfl, rfl, rfl⟩))
  | .num m => exact scanValue_num hd ht
  | .str b =>
    have hquote : code (unit 0x22) = 0x22 := hu _ (by decide)
    dsimp only [Doc.print, List.cons_append]
    unfold scanValue
    rw [List.append_assoc, List.singleton_append, scanBody_append hd hquote]
    simp only [hquote]
    rfl
  | .arr [] =>
    have hopen : code (unit 0x5B) = 0x5B := hu _ (by decide)
    have hclose : closes code 0x5D (unit 0x5D :: t) = some t := by
      unfold closes
      rw [hu.skipWs (by decide) (by decide)]
      exact if_pos (hu _ (by decide))
    dsimp only [Doc.print, List.cons_append, List.nil_append]
    unfold scanValue
    simp only [hopen, hclose]
    rfl
  | .arr (v :: l) =>
    obtain ⟨hv, hl⟩ := hd
    have hlen : (v.print unit gap).length + (Doc.printItems unit gap l).length ≤ n := by
      simp only [Doc.print, List.length_cons, List.length_append] at hn
      omega
    have hmore := length_lt_printItems unit gap l
    dsimp only [Doc.print, List.cons_append]
    unfold scanValue
    rw [if_neg (hu.ne (by decide) (by decide)), if_pos (hu _ (by decide)), List.append_assoc, closes_print hu hv]
    dsimp only
    rw [show v.print unit gap ++ (Doc.printItems unit gap l ++ t) =
        [] ++ (v.print unit gap ++ (Doc.printItems unit gap l ++ t)) from rfl,
      scanItems_print l hl n n [] t (by simp [Blank]) (by omega) (by omega) v hv
        fun u hu' => scanValue_print v hv n u (by omega) hu']
    rfl
  | .obj [] =>
    have hopen : code (unit 0x7B) = 0x7B := hu _ (by decide)
    have hclose : closes code 0x7D (unit 0x7D :: t) = some t := by
      unfold closes
      rw [hu.skipWs (by decide) (by decide)]
      exact if_pos (hu _ (by decide))
    dsimp only [Doc.print, List.cons_append, List.nil_append]
    unfold scanValue
    simp only [hopen, hclose]
    rfl
  | .obj ((k, v) :: l) =>
    obtain ⟨hk, hv, hl⟩ := hd
    have hlen : k.length + (v.print unit gap).length + (Doc.printMembers unit gap l).length + 3 ≤ n := by
      simp only [Doc.print, List.length_cons, List.length_append] at hn
      omega
    have hmore := length_lt_printMembers unit gap l
    have hmembers := scanMembers_print l hl n n [] t (by simp [Blank]) (by omega) (by omega) k v hk hv
      fun u hu' => scanValue_print v hv n u (by omega) hu'
    rw [List.nil_append] at hmembers
    dsimp only [Doc.print, List.cons_append]
    unfold scanValue
    rw [if_pos (hu _ (by decide))]
    simp only [List.append_assoc, List.cons_append]
    rw [closes_quote hu]
    dsimp only
    rw [hmembers]
    rfl

theorem scanItems_print (l : List (Doc α)) (hl : Doc.OkItems code l) (n k : ℕ) (s t : List α)
    (hs : Blank code s) (hn : (Doc.printItems unit gap l).length ≤ n) (hk : l.length < k) (v : Doc α)
    (hv : v.Ok code)
    (hread : ∀ u, Follows code u → scanValue code n (v.print unit gap ++ u) = some (v, u)) :
    scanItems code (scanValue code n) k (s ++ (v.print unit gap ++ (Doc.printItems unit gap l ++ t))) =
      some (v :: l, t) := by
  obtain ⟨k, rfl⟩ : ∃ m, k = m + 1 := ⟨k - 1, by omega⟩
  unfold scanItems
  rw [skipWs_gap hs, skipWs_print hu gap hv, hread _ (follows_printItems hu l t)]
  match l with
  | [] =>
    dsimp only [Doc.printItems, List.cons_append]
    rw [hu.skipWs (by decide) (by decide)]
    dsimp only
    rw [if_neg (hu.ne (by decide) (by decide)), if_pos (hu _ (by decide))]
    rfl
  | w :: l =>
    obtain ⟨hw, hl⟩ := hl
    have hlen : (w.print unit gap).length + (Doc.printItems unit gap l).length < n := by
      simp only [Doc.printItems, List.length_cons, List.length_append] at hn
      omega
    dsimp only [Doc.printItems, List.cons_append]
    rw [hu.skipWs (by decide) (by decide)]
    dsimp only
    rw [if_pos (hu _ (by decide)), List.append_assoc, List.append_assoc,
      scanItems_print l hl n k gap t hgap (by omega) (by simpa using hk) w hw
        fun u hu' => scanValue_print w hw n u (by omega) hu']
    rfl

theorem scanMembers_print (l : List (List α × Doc α)) (hl : Doc.OkMembers code l) (n k : ℕ)
    (s t : List α) (hs : Blank code s) (hn : (Doc.printMembers unit gap l).length ≤ n) (hk : l.length < k)
    (key : List α) (v : Doc α) (hkey : Body code key) (hv : v.Ok code)
    (hread : ∀ u, Follows code u → scanValue code n (v.print unit gap ++ u) = some (v, u)) :
    scanMembers code (scanValue code n) k
      (s ++ unit 0x22 :: (key ++ unit 0x22 :: unit 0x3A ::
        (gap ++ (v.print unit gap ++ (Doc.printMembers unit gap l ++ t))))) = some ((key, v) :: l, t) := by
  obtain ⟨k, rfl⟩ : ∃ m, k = m + 1 := ⟨k - 1, by omega⟩
  unfold scanMembers
  rw [scanMember_print hu hgap hs hkey hv (hread _ (follows_printMembers hu l t))]
  match l with
  | [] =>
    dsimp only [Doc.printMembers, List.cons_append]
    rw [hu.skipWs (by decide) (by decide)]
    dsimp only
    rw [if_neg (hu.ne (by decide) (by decide)), if_pos (hu _ (by decide))]
    rfl
  | (j, w) :: l =>
    obtain ⟨hj, hw, hl⟩ := hl
    have hlen : (w.print unit gap).length + (Doc.printMembers unit gap l).length < n := by
      simp only [Doc.printMembers, List.length_cons, List.length_append] at hn
      omega
    have hmembers := scanMembers_print l hl n k gap t hgap (by omega) (by simpa using hk) j w hj hw
      fun u hu' => scanValue_print w hw n u (by omega) hu'
    dsimp only [Doc.printMembers, List.cons_append]
    rw [hu.skipWs (by decide) (by decide)]
    dsimp only
    rw [if_pos (hu _ (by decide))]
    simp only [List.append_assoc, List.cons_append]
    rw [hmembers]
    rfl
end

/-- Reading what `print` writes. -/
theorem parse_print {d : Doc α} (hd : d.Ok code) : parse code (d.print unit gap) = some d := by
  have hskip := skipWs_print hu gap hd []
  rw [List.append_nil] at hskip
  have hscan := scanValue_print hu hgap d hd ((d.print unit gap).length + 1) [] (by omega) (by simp [Follows])
  rw [List.append_nil] at hscan
  unfold parse
  rw [hskip, hscan]
  rfl

end

end Print

end AgentWorkflow.Lib.JsonText
