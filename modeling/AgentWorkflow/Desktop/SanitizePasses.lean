import AgentWorkflow.Desktop.Sanitize

/-!
# Tokens under the cleaners

A token between white space goes through the patterns as the marked part of a text whose
other parts are clean: each `replace` leaves it, makes a mark of it, or covers it.
-/

namespace AgentWorkflow.Desktop.Sanitize
open AgentWorkflow.Lib AgentWorkflow.Lib.Js AgentWorkflow.Lib.JsRegex

/-! ### Units -/

/-- What tokens are written with. -/
def TokenUnit (c : UInt16) : Prop := segmentUnit c = true ∨ c = 0x2E

instance : DecidablePred TokenUnit := fun c => inferInstanceAs (Decidable (segmentUnit c = true ∨ c = 0x2E))

def Blank (c : UInt16) : Prop := isBlank c = true

instance : DecidablePred Blank := fun c => inferInstanceAs (Decidable (isBlank c = true))

/-- White space, and the end of a text that was cut. -/
def Break (c : UInt16) : Prop := isBlank c = true ∨ c = 0x2026

theorem Blank.toNat {c : UInt16} (h : Blank c) : c.toNat ≤ 0x20 ∨ 0xA0 ≤ c.toNat := by
  unfold Blank isBlank JsText.isSpace at h
  simp only [List.mem_cons, List.not_mem_nil, or_false, Bool.or_eq_true, decide_eq_true_eq] at h
  omega

theorem Break.toNat {c : UInt16} (h : Break c) : c.toNat ≤ 0x20 ∨ 0xA0 ≤ c.toNat := by
  rcases h with h | rfl
  · exact Blank.toNat h
  · right
    decide

theorem isWord_toNat {c : UInt16} (h : isWord c = true) : 0x30 ≤ c.toNat ∧ c.toNat ≤ 0x7A := by
  simp only [isWord, Bool.or_eq_true, decide_eq_true_eq, UInt16.le_iff_toNat_le, ← UInt16.toNat_inj] at h
  simp at h
  omega

theorem isLetter_isWord {c : UInt16} (h : isLetter c = true) : isWord c = true := by
  simp only [isLetter, Bool.or_eq_true] at h
  simp only [isWord, Bool.or_eq_true]
  exact Or.inl (h.elim (fun h => Or.inl (Or.inr h)) Or.inr)

theorem isHex_isWord {c : UInt16} (h : isHex c = true) : isWord c = true := by
  simp only [isHex, isDigit, isWord, Bool.or_eq_true, decide_eq_true_eq, UInt16.le_iff_toNat_le, ← UInt16.toNat_inj] at h ⊢
  simp at h ⊢
  omega

theorem TokenUnit.toNat {c : UInt16} (h : TokenUnit c) : 0x2D ≤ c.toNat ∧ c.toNat ≤ 0x7A := by
  simp only [TokenUnit, segmentUnit, Bool.or_eq_true, decide_eq_true_eq] at h
  rcases h with (h | rfl) | rfl
  · have := isWord_toNat h
    omega
  · decide
  · decide

theorem TokenUnit.not_break {c : UInt16} (h : TokenUnit c) : ¬ Break c := by
  intro hbreak
  have hc := h.toNat
  have hb := hbreak.toNat
  omega

theorem TokenUnit.share {c : UInt16} (h : TokenUnit c) : shareUnit c = true := by
  simp only [TokenUnit, segmentUnit, Bool.or_eq_true, decide_eq_true_eq] at h
  simp only [shareUnit, Bool.or_eq_true, decide_eq_true_eq]
  rcases h with (h | rfl) | rfl
  · exact Or.inl h
  · exact Or.inr (by decide)
  · exact Or.inr (by decide)

theorem shareUnit_path {c : UInt16} (h : shareUnit c = true) : pathUnit c = true := by
  simp only [shareUnit, pathUnit, Bool.or_eq_true, decide_eq_true_eq] at h ⊢
  have hmore : ∀ d ∈ str ".-", d ∈ str ".-@+" := List.all_iff_forall_prop.mp (by decide)
  exact h.imp id (hmore c)

theorem TokenUnit.spaced {c : UInt16} (h : TokenUnit c) : spacedUnit c = true := by
  simp only [spacedUnit, shareUnit_path h.share, Bool.true_or]

theorem TokenUnit.bearer {c : UInt16} (h : TokenUnit c) : bearerUnit c = true := by
  simp only [TokenUnit, segmentUnit, Bool.or_eq_true, decide_eq_true_eq] at h
  simp only [bearerUnit, Bool.or_eq_true, decide_eq_true_eq]
  rcases h with (h | rfl) | rfl
  · exact Or.inl h
  · exact Or.inr (by decide)
  · exact Or.inr (by decide)

theorem pathUnit_toNat {c : UInt16} (h : pathUnit c = true) : 0x2B ≤ c.toNat ∧ c.toNat ≤ 0x7A := by
  simp only [pathUnit, Bool.or_eq_true, decide_eq_true_eq] at h
  rcases h with h | h
  · have := isWord_toNat h
    omega
  · have hmore : ∀ d ∈ str ".-@+", 0x2B ≤ d.toNat ∧ d.toNat ≤ 0x7A := List.all_iff_forall_prop.mp (by decide)
    exact hmore c h

theorem pathUnit_not_blank {c : UInt16} (h : pathUnit c = true) : ¬ Blank c := by
  intro hblank
  have hc := pathUnit_toNat h
  have hb := hblank.toNat
  omega

theorem TokenUnit.value {c : UInt16} (h : TokenUnit c) : valueUnit c = true := by
  have hblank : isBlank c = false := by
    rw [Bool.eq_false_iff]
    intro hb
    exact h.not_break (Or.inl hb)
  have hother : c ∉ ([0x22, 0x27, 0x2C, 0x3B, 0x7D] : List UInt16) := by
    have hnone : ∀ d ∈ ([0x22, 0x27, 0x2C, 0x3B, 0x7D] : List UInt16), ¬ TokenUnit d := List.all_iff_forall_prop.mp (by decide)
    exact fun hmem => hnone c hmem h
  simp [valueUnit, hblank, hother]

/-! ### Words -/

/-- A piece of the token that is not to come out. -/
def Piece (t w : Str) : Prop := 16 ≤ w.length ∧ w <:+: t

def Given (p s w : Str) : Prop := w <:+: p ∨ w <:+: s

/-- In `w` a spelling of `bearer` stands before white space; written `Bearer`, it makes the piece `made`. -/
def Respelt (t w made : Str) : Prop :=
  ∃ a c b e j, w = a ++ c :: (b ++ [e]) ∧ (c = 0x2D ∨ c = 0x2E) ∧ List.Forall₂ Caseless (str "bearer") b ∧ Blank e ∧
    made = a ++ c :: (str "Bearer").take j ∧ Piece t made

def Respellable (t w : Str) : Prop := ∃ made, Respelt t w made

def Word (t w : Str) : Prop := Piece t w ∨ Respellable t w

theorem caseless_letters {l b : Str} (hl : ∀ d ∈ l, 0x61 ≤ d.toNat ∧ d.toNat ≤ 0x7A) (h : List.Forall₂ Caseless l b) :
    ∀ c ∈ b, isLetter c = true := by
  induction h with
  | nil => exact fun c hc => nomatch hc
  | @cons d c l b hdc _ ih =>
    intro e he
    rcases List.mem_cons.mp he with rfl | he
    · have hd := hl d (List.mem_cons_self ..)
      simp only [isLetter, Bool.or_eq_true, decide_eq_true_eq, UInt16.le_iff_toNat_le]
      rcases hdc with rfl | rfl
      · right
        exact hd
      · left
        have hlt := UInt16.toNat_lt e
        rw [UInt16.toNat_add] at hd
        simp at hd ⊢
        omega
    · exact ih (fun d hd => hl d (List.mem_cons_of_mem _ hd)) e he

section Words
variable {t p s : Str}

theorem Piece.solid (ht : ∀ c ∈ t, TokenUnit c) {w : Str} (h : Piece t w) : ∀ d ∈ w, TokenUnit d := fun d hd => ht d (h.2.subset hd)

theorem bearer_letters {b : Str} (h : List.Forall₂ Caseless (str "bearer") b) : ∀ c ∈ b, isLetter c = true :=
  caseless_letters (List.all_iff_forall_prop.mp (by decide)) h

theorem TokenUnit.of_letter {c : UInt16} (h : isLetter c = true) : TokenUnit c := by
  simp [TokenUnit, segmentUnit, isLetter_isWord h]

/-- Units of tokens and white space. -/
def Wide (c : UInt16) : Prop := TokenUnit c ∨ Blank c

instance : DecidablePred Wide := fun c => inferInstanceAs (Decidable (TokenUnit c ∨ Blank c))

theorem Word.solid (ht : ∀ c ∈ t, TokenUnit c) {w : Str} (h : Word t w) : ∀ d ∈ w, Wide d := by
  intro d hd
  rcases h with h | ⟨made, a, c, b, e, j, rfl, hc, hb, he, rfl, hpiece⟩
  · exact Or.inl (Piece.solid ht h d hd)
  · simp only [List.mem_append, List.mem_cons, List.not_mem_nil, or_false] at hd
    rcases hd with hd | rfl | hd | rfl
    · exact Or.inl (hpiece.solid ht d (List.mem_append_left _ hd))
    · left
      rcases hc with rfl | rfl
      · decide
      · decide
    · exact Or.inl (TokenUnit.of_letter (bearer_letters hb d hd))
    · exact Or.inr he

theorem Word.length {w : Str} (h : Word t w) : 7 ≤ w.length := by
  rcases h with h | ⟨made, a, c, b, e, j, rfl, -, hb, -⟩
  · have := h.1
    omega
  · have hlen : b.length = 6 := hb.length_eq.symm
    simp only [List.length_append, List.length_cons, List.length_nil]
    omega

theorem Given.within {w w' : Str} (h : Given p s w) (hin : w' <:+: w) : Given p s w' := h.imp hin.trans hin.trans

end Words

/-! ### Paths -/

/-- What `replacePath` keeps. -/
def pathTail (m : Str) : Str := if lastSegment m ≠ [] ∧ fileName (lastSegment m) = true then lastSegment m else []

theorem lastSegment_suffix (m : Str) : lastSegment m <:+ m := List.rtakeWhile_suffix _ m

theorem pathTail_suffix (m : Str) : pathTail m <:+ m := by
  unfold pathTail
  split
  · exact lastSegment_suffix m
  · exact List.nil_suffix

theorem only_atMost {q : UInt16 → Prop} {p : UInt16 → Bool} (hp : ∀ c, p c = true → q c) (n : ℕ) : (atMost p n).Only q := by
  induction n with
  | zero => exact fun c hc => nomatch hc
  | succ n ih => exact ⟨hp, ih⟩

theorem fileName_units {last : Str} (h : fileName last = true) : ∀ c ∈ last, pathUnit c = true := by
  have halnum : ∀ c, (isLetter c || isDigit c) = true → pathUnit c = true := by
    intro c hc
    rcases Bool.or_eq_true _ _ ▸ hc with hc | hc
    · simp [pathUnit, isLetter_isWord hc]
    · have hword : isWord c = true := isHex_isWord (by simp [isHex, hc])
      simp [pathUnit, hword]
  unfold fileName testStart at h
  rw [Bool.not_eq_true', List.isEmpty_eq_false_iff_exists_mem] at h
  obtain ⟨m, hm⟩ := h
  have happend := results_append _ hm
  have honly := Pattern.Only.of_results (q := fun c => pathUnit c = true) ?_ hm
  · obtain ⟨_, -, m₁, hm₁, rfl⟩ := results_seq hm
    obtain ⟨_, -, m₂, hm₂, rfl⟩ := results_seq hm₁
    obtain ⟨_, -, m₃, hm₃, rfl⟩ := results_seq hm₂
    obtain ⟨_, -, m₄, hm₄, rfl⟩ := results_seq hm₃
    obtain ⟨-, rfl⟩ := results_stop hm₄
    rw [List.append_nil] at happend
    rw [← happend]
    exact honly
  · refine ⟨fun c hc => hc, ?_, halnum, only_atMost halnum 5, trivial⟩
    intro c hc
    have hdot : c = 0x2E := of_decide_eq_true hc
    rw [hdot]
    rfl

/-- What is taken of a path is `<path>` and perhaps the name of a file. -/
theorem replacePath_splits {t : Str} (ht : ∀ c ∈ t, TokenUnit c) (x : Str) : Splits Wide (Word t) (replacePath x) [] (pathTail x) := by
  have hopen : ¬ Wide 0x3C := by decide
  have hclose : ¬ Wide 0x3E := by decide
  have hslash : ¬ Wide 0x2F := by decide
  have hsolid : ∀ w, Word t w → ∀ d ∈ w, Wide d := fun w hw => hw.solid ht
  have hlong : ∀ w, Word t w → 7 ≤ w.length := fun w hw => hw.length
  unfold replacePath pathTail
  split
  · exact Splits.of_short (g := str "path>") hsolid hlong rfl hopen hslash (by decide)
  · exact Splits.of_short (g := str "path") hsolid hlong rfl hopen hclose (by decide)

theorem path_rewrite {t p s : Str} (ht : ∀ c ∈ t, TokenUnit c) (r : Pattern) :
    Rewrite Wide (Word t) (Given p s) (fun _ => True) r replacePath (fun _ => []) pathTail where
  solid _ hw := hw.solid ht
  closed _ _ _ h := h
  splits _ _ x _ _ := replacePath_splits ht x
  suffix := pathTail_suffix
  word k _ _ x _ _ _ _ w _ h := Or.inl (h.trans ⟨[], x, by simp⟩)

/-- Where a path covers a token, the name that stays comes after the token. -/
theorem pathTail_covers {u τ v₁ : Str} (hended : Ended Blank u) (hτ : ∀ c ∈ τ, TokenUnit c) : pathTail (u ++ (τ ++ v₁)) <:+ v₁ := by
  obtain ⟨e, he, hblank⟩ := hended
  unfold pathTail
  split
  · next hname =>
    obtain ⟨-, hname⟩ := hname
    have hunits := fileName_units hname
    set p : UInt16 → Bool := fun c => decide (c ≠ 0x2F ∧ c ≠ 0x5C) with hp
    have hsplit : (u ++ (τ ++ v₁)).rdropWhile p ++ lastSegment (u ++ (τ ++ v₁)) = u ++ (τ ++ v₁) := List.rdropWhile_append_rtakeWhile
    have hlast : ∀ c ∈ ((u ++ (τ ++ v₁)).rdropWhile p).getLast?, c = 0x2F ∨ c = 0x5C := by
      intro c hc
      have hne : (u ++ (τ ++ v₁)).rdropWhile p ≠ [] := by
        intro hnil
        rw [hnil] at hc
        cases hc
      have hnot := List.rdropWhile_last_not p _ hne
      rw [Option.mem_def, List.getLast?_eq_some_getLast hne, Option.some.injEq] at hc
      rw [hc] at hnot
      by_contra hcon
      exact hnot (decide_eq_true (not_or.mp hcon))
    have hblanks : ∀ c, c = 0x2F ∨ c = 0x5C → ¬ Blank c ∧ ¬ TokenUnit c := by
      rintro c (rfl | rfl) <;> exact ⟨by decide, by decide⟩
    rcases List.append_eq_append_iff.mp hsplit with ⟨u', hu', hrest⟩ | ⟨pre, hpre, hrest⟩
    · by_cases hnil : u' = []
      · rw [hnil, List.append_nil] at hu'
        exact absurd hblank (hblanks e (hlast e (by rw [← hu']; exact he))).1
      · -- The blank before the token would be in the name.
        rw [hu', List.getLast?_append_of_ne_nil _ hnil] at he
        have hmem : e ∈ lastSegment (u ++ (τ ++ v₁)) := by
          rw [hrest]
          exact List.mem_append_left _ (List.mem_of_getLast? he)
        exact absurd hblank (pathUnit_not_blank (hunits e hmem))
    · rcases List.append_eq_append_iff.mp hrest with ⟨pre', hpre', hv⟩ | ⟨τ', hτ', -⟩
      · exact ⟨pre', hv.symm⟩
      · by_cases hnil : pre = []
        · rw [hnil, List.append_nil] at hpre
          exact absurd hblank (hblanks e (hlast e (by rw [hpre]; exact he))).1
        · obtain ⟨d, hd⟩ := Option.ne_none_iff_exists'.mp (mt List.getLast?_eq_none_iff.mp hnil)
          have hd' := hlast d (by rw [hpre, List.getLast?_append_of_ne_nil _ hnil]; exact hd)
          exact absurd (hτ d (by rw [hτ']; exact List.mem_append_left _ (List.mem_of_getLast? hd))) (hblanks d hd').2
  · exact List.nil_suffix

/-- What the paths begin with. -/
def PathStart (s : Str) : Prop := ∃ c s', s = c :: s' ∧ (c = 0x2F ∨ c = 0x5C ∨ isLetter c = true ∧ s'.head? = some 0x3A)

instance : DecidablePred Break := fun c => inferInstanceAs (Decidable (isBlank c = true ∨ c = 0x2026))

/-- No path begins in a token or at a break. -/
theorem not_pathStart {τ v : Str} (hτ : ∀ c ∈ τ, TokenUnit c) (hstop : ∀ c ∈ v.head?, Break c) : ¬ PathStart (τ ++ v) := by
  rintro ⟨c, s', hs, hc⟩
  have hunit : ∀ d ∈ (τ ++ v).head?, TokenUnit d ∨ Break d := by
    intro d hd
    cases τ with
    | nil => exact Or.inr (hstop d hd)
    | cons e τ =>
      rw [List.cons_append, List.head?_cons, Option.mem_def, Option.some.injEq] at hd
      exact Or.inl (hτ d (by rw [hd]; exact List.mem_cons_self ..))
  have hfirst := hunit c (by rw [hs]; rfl)
  rcases hc with rfl | rfl | ⟨hletter, hcolon⟩
  · revert hfirst
    decide
  · revert hfirst
    decide
  · cases τ with
    | nil =>
      rcases hstop c (by rw [List.nil_append] at hs; rw [hs]; rfl) with hb | rfl
      · exact (TokenUnit.of_letter hletter).not_break (Or.inl hb)
      · exact (TokenUnit.of_letter hletter).not_break (Or.inr rfl)
    | cons e τ =>
      rw [List.cons_append, List.cons.injEq] at hs
      have hsecond : TokenUnit 0x3A ∨ Break 0x3A := by
        rw [← hs.2] at hcolon
        cases τ with
        | nil => exact Or.inr (hstop _ hcolon)
        | cons d τ =>
          rw [List.cons_append, List.head?_cons, Option.some.injEq] at hcolon
          exact Or.inl (hτ _ (by rw [← hcolon]; simp))
      revert hsecond
      decide

theorem results_unit {c : UInt16} {prev : Option UInt16} {s : Str} {m : Str × Str} (h : m ∈ (unit c).results prev s) :
    ∃ rest, s = c :: rest ∧ m = ([c], rest) := by
  obtain ⟨d, rest, hs, hd, rfl⟩ := results_one h
  have heq : d = c := of_decide_eq_true hd
  exact ⟨rest, by rw [hs, heq], by rw [heq]⟩

theorem posix_start {prev : Option UInt16} {s : Str} {m : Str × Str} (h : m ∈ POSIX_PATH_RE.results prev s) : PathStart s := by
  obtain ⟨k, hk, -⟩ := results_seq h
  obtain ⟨rest, rfl, -⟩ := results_unit hk
  exact ⟨_, rest, rfl, Or.inl rfl⟩

theorem win_start {prev : Option UInt16} {s : Str} {m : Str × Str} (h : m ∈ WIN_PATH_RE.results prev s) : PathStart s := by
  rcases results_alt h with h | h
  · obtain ⟨k, hk, j, hj, -⟩ := results_seq h
    obtain ⟨c, rest, rfl, hletter, rfl⟩ := results_one hk
    obtain ⟨k', hk', -⟩ := results_seq hj
    obtain ⟨rest', hrest, -⟩ := results_unit hk'
    exact ⟨c, rest, rfl, Or.inr (Or.inr ⟨hletter, by rw [show rest = _ from hrest]; rfl⟩)⟩
  · obtain ⟨k, hk, -⟩ := results_seq h
    obtain ⟨rest, rfl, -⟩ := results_unit hk
    exact ⟨_, rest, rfl, Or.inr (Or.inl rfl)⟩

/-- Where a match ends: it has no white space, or ends before what a name with blanks cannot have. -/
def PathEnd (x rest : Str) : Prop := (∀ c ∈ x, ¬ Blank c) ∨ ∀ c ∈ rest.head?, ¬ spacedUnit c = true

theorem posix_end {prev : Option UInt16} {s x rest : Str} (h : POSIX_PATH_RE.first prev s = some (x, rest)) : PathEnd x rest := by
  have hslash : ∀ c, decide (c = 0x2F) = true → ¬ Blank c := by
    intro c hc
    rw [of_decide_eq_true hc]
    decide
  have hpath : ∀ c, pathUnit c = true → ¬ Blank c := fun c hc => pathUnit_not_blank hc
  have honly : POSIX_PATH_RE.Only fun c => ¬ Blank c := ⟨hslash, ⟨hpath, hslash⟩, ⟨hpath, hslash⟩, hpath⟩
  exact Or.inl (honly.of_results (first_results h))

theorem chars_end {p : UInt16 → Bool} {least : ℕ} {prev : Option UInt16} {s : Str} {m : Str × Str}
    (h : (Pattern.chars p least).first prev s = some m) : ∀ c ∈ m.2.head?, ¬ p c = true := by
  intro c hc
  rw [chars_rest h c hc]
  decide

theorem win_end {prev : Option UInt16} {s x rest : Str} (h : WIN_PATH_RE.first prev s = some (x, rest)) : PathEnd x rest := by
  rcases first_alt h with h | h
  · right
    obtain ⟨_, -, m₁, hm₁, heq⟩ := first_seq_last h
    obtain ⟨_, -, m₂, hm₂, rfl⟩ := first_seq_last hm₁
    obtain ⟨_, -, m₃, hm₃, rfl⟩ := first_seq_last hm₂
    obtain ⟨_, -, m₄, hm₄, rfl⟩ := first_seq_last hm₃
    obtain ⟨_, -, m₅, hm₅, rfl⟩ := first_seq_last hm₄
    cases heq
    exact chars_end (m := m₅) hm₅
  · obtain ⟨k₁, hk₁, m₁, hm₁, heq⟩ := first_seq_last h
    obtain ⟨k₂, hk₂, m₂, hm₂, rfl⟩ := first_seq_last hm₁
    obtain ⟨k₃, hk₃, m₃, hm₃, rfl⟩ := first_seq_last hm₂
    obtain ⟨k₄, hk₄, m₄, hm₄, rfl⟩ := first_seq_last hm₃
    obtain ⟨k₅, hk₅, m₅, hm₅, rfl⟩ := first_seq_last hm₄
    obtain ⟨_, -, rfl⟩ := results_unit hk₁
    obtain ⟨_, -, rfl⟩ := results_unit hk₂
    obtain ⟨-, hshare₃, -⟩ := results_chars hk₃
    obtain ⟨_, -, rfl⟩ := results_unit hk₄
    obtain ⟨-, hshare₅, -⟩ := results_chars hk₅
    cases heq
    have hgroup : ∀ prev s x rest, uncGroup.first prev s = some (x, rest) → ∀ c ∈ rest.head?, ¬ spacedUnit c = true := by
      intro prev s x rest hfirst
      obtain ⟨_, -, m, hm, heq⟩ := first_seq_last hfirst
      cases heq
      exact chars_end (m := m) hm
    have hsome : ∀ prev s, ∀ m ∈ uncGroup.results prev s, m.1 ≠ [] := by
      intro prev s m hm
      obtain ⟨k, hk, j, -, rfl⟩ := results_seq hm
      obtain ⟨_, -, rfl⟩ := results_unit hk
      simp
    rcases first_star hgroup hsome hm₅ with hnil | hrest
    · left
      have hblank : ∀ c, shareUnit c = true → ¬ Blank c := fun c hc => pathUnit_not_blank (shareUnit_path hc)
      intro c hc
      simp only [hnil, List.append_nil, List.mem_append, List.mem_cons, List.not_mem_nil, or_false] at hc
      rcases hc with rfl | rfl | hc | rfl | hc
      · decide
      · decide
      · exact hblank c (hshare₃ c hc)
      · decide
      · exact hblank c (hshare₅ c hc)
    · exact Or.inr hrest

theorem path_pass {t p s : Str} (ht : ∀ c ∈ t, TokenUnit c) {r : Pattern} {kind : Str → Prop}
    (hkind : ∀ τ, kind τ → τ ≠ [] ∧ ∀ c ∈ τ, TokenUnit c) (hstart : ∀ prev s, ∀ m ∈ r.results prev s, PathStart s)
    (hend : ∀ prev s x rest, r.first prev s = some (x, rest) → PathEnd x rest) :
    Pass Wide Blank Break (Word t) (Given p s) (fun _ => True) r replacePath (fun _ => []) pathTail kind kind where
  toRewrite := path_rewrite ht r
  place prev u τ v x rest hended hτ hstop hfirst := by
    obtain ⟨hne, hunits⟩ := hkind τ hτ
    have hend := hend _ _ _ _ hfirst
    refine place_of_rest (first_append hfirst) hended hne (C := fun c => spacedUnit c = true) (fun c hc => (hunits c hc).spaced) ?_
    exact hend.imp id Or.inr
  covers k prev u τ v v₁ rest _ _ hended hτ _ _ _ := by
    obtain ⟨-, hunits⟩ := hkind τ hτ
    exact ⟨pathTail_covers hended hunits, fun w _ h => Or.inl (h.trans ⟨[], u, by simp⟩)⟩
  arrive n prev τ v hτ hstop hafter hv _ hn := by
    obtain ⟨-, hunits⟩ := hkind τ hτ
    have hnone : ∀ prev a, (∀ c ∈ a, TokenUnit c) → ∀ b, (∀ c ∈ b.head?, Break c) → r.first prev (a ++ b) = none := fun prev a ha b hb =>
      first_none fun m hm => not_pathStart ha hb (hstart _ _ _ hm)
    have hbreak : ∀ c rest prev, Break c → r.first prev (c :: rest) = none := fun c rest prev hc =>
      hnone prev [] (fun _ h => nomatch h) (c :: rest) (fun d hd => by rw [List.head?_cons, Option.mem_def, Option.some.injEq] at hd; rwa [← hd])
    have hcopy : ∀ a b, τ = a ++ b → b ≠ [] → r.first (a.getLast?.or prev) (b ++ v) = none := fun a b hab _ =>
      hnone _ b (fun c hc => hunits c (by rw [hab]; exact List.mem_append_right _ hc)) v hstop
    obtain ⟨v', hout, hstop', hclean⟩ := (path_rewrite ht r).arrive_copy hbreak hcopy hstop hafter hv hn
    exact ⟨τ, v', hout, hτ, hstop', hclean⟩

/-! ### What the patterns for secrets see of a token -/

def Segment (l : Str) : Prop := 8 ≤ l.length ∧ ∀ e ∈ l, segmentUnit e = true

def HexToken (τ : Str) : Prop := 24 ≤ τ.length ∧ ∀ c ∈ τ, isHex c = true

/-- Three segments; where a text was cut, some dashes may follow. -/
def JwtToken (τ : Str) : Prop :=
  ∃ a b c d, τ = a ++ 0x2E :: (b ++ 0x2E :: (c ++ d)) ∧ Segment a ∧ Segment b ∧ Segment c ∧ wordAt a.head? = true ∧
    wordAt c.getLast? = true ∧ (∀ e ∈ d, e = 0x2D) ∧ d.length < 16

def Shape (τ : Str) : Prop := HexToken τ ∨ JwtToken τ

theorem HexToken.units {τ : Str} (h : HexToken τ) : τ ≠ [] ∧ ∀ c ∈ τ, TokenUnit c := by
  refine ⟨?_, fun c hc => Or.inl (by simp [segmentUnit, isHex_isWord (h.2 c hc)])⟩
  rintro rfl
  exact absurd h.1 (by decide)

theorem JwtToken.units {τ : Str} (h : JwtToken τ) : τ ≠ [] ∧ ∀ c ∈ τ, TokenUnit c := by
  obtain ⟨a, b, c, d, rfl, ha, hb, hc, -, -, hd, -⟩ := h
  refine ⟨by simp, ?_⟩
  intro e he
  simp only [List.mem_append, List.mem_cons] at he
  rcases he with he | rfl | he | rfl | he | he
  · exact Or.inl (ha.2 e he)
  · exact Or.inr rfl
  · exact Or.inl (hb.2 e he)
  · exact Or.inr rfl
  · exact Or.inl (hc.2 e he)
  · left
    rw [hd e he]
    decide

theorem Shape.units {τ : Str} (h : Shape τ) : τ ≠ [] ∧ ∀ c ∈ τ, TokenUnit c := h.elim HexToken.units JwtToken.units

/-! ### Bearer tokens -/

theorem bearer_results {prev : Option UInt16} {s : Str} {m : Str × Str} (h : m ∈ BEARER_RE.results prev s) :
    wordAt prev = false ∧ ∃ b e y, m.1 = b ++ e :: y ∧ List.Forall₂ Caseless (str "bearer") b ∧ Blank e := by
  obtain ⟨k, hk, m₁, hm₁, rfl⟩ := results_seq h
  obtain ⟨hbound, rfl⟩ := results_boundary hk
  obtain ⟨b, hb, m₂, hm₂, rfl⟩ := results_seq hm₁
  obtain ⟨y, hy, m₃, hm₃, rfl⟩ := results_seq hm₂
  obtain ⟨-, hblank, hlong⟩ := results_chars hy
  have hspelt := results_letter hb
  have happend : b.1 ++ b.2 = s := results_append _ hb
  obtain ⟨c, b', hcb⟩ := List.exists_cons_of_ne_nil (l := b.1) (by intro hnil; rw [hnil] at hspelt; cases hspelt)
  obtain ⟨e, y', hey⟩ := List.exists_cons_of_ne_nil (l := y.1) (by intro hnil; rw [hnil] at hlong; exact absurd hlong (by decide))
  constructor
  · have hword : wordAt s.head? = true := by
      rw [← happend, hcb]
      exact isLetter_isWord (bearer_letters hspelt c (by rw [hcb]; exact List.mem_cons_self ..))
    rw [hword] at hbound
    exact Bool.eq_false_iff.mpr hbound
  · refine ⟨b.1, e, y' ++ m₃.1, ?_, hspelt, hblank e (by rw [hey]; exact List.mem_cons_self ..)⟩
    simp [hey]

/-- A match that begins in a token begins with its end, and the white space comes after the token. -/
theorem bearer_at {prev : Option UInt16} {b v x rest : Str} (hfirst : BEARER_RE.first prev (b ++ v) = some (x, rest))
    (hb : ∀ c ∈ b, TokenUnit c) (hstop : ∀ c ∈ v.head?, Break c) :
    List.Forall₂ Caseless (str "bearer") b ∧ ∃ y, x = b ++ y ∧ v = y ++ rest := by
  obtain ⟨-, b', e, y, hx, hspelt, he⟩ := bearer_results (first_results hfirst)
  have happend := first_append hfirst
  have hsplit : b' ++ (e :: y ++ rest) = b ++ v := by rw [← happend, show x = _ from hx]; simp
  rcases List.append_eq_append_iff.mp hsplit with ⟨c', hc', hrest⟩ | ⟨c', hc', hrest⟩
  · cases c' with
    | nil =>
      rw [List.append_nil] at hc'
      rw [hc']
      exact ⟨hspelt, e :: y, hx, hrest.symm⟩
    | cons d c' =>
      rw [List.cons_append, List.cons_append, List.cons.injEq] at hrest
      have hmem : e ∈ b := by
        rw [hc', hrest.1]
        simp
      exact absurd (Or.inl he) (hb e hmem).not_break
  · cases c' with
    | nil =>
      rw [List.append_nil] at hc'
      rw [← hc']
      exact ⟨hspelt, e :: y, hx, hrest⟩
    | cons d c' =>
      have hletter := bearer_letters hspelt d (by rw [hc']; simp)
      exact absurd (hstop d (by rw [hrest]; rfl)) (TokenUnit.of_letter hletter).not_break

section Bearer
variable {t p s : Str}

/-- The spelling `Bearer` makes pieces of the token only of words that are given, and those are given too. -/
def Spelled (p t s : Str) : Prop := ∀ w made, Respelt t w made → Given p s w → Given p s made

theorem bearer_word (ht : ∀ c ∈ t, TokenUnit c) (hspelled : Spelled p t s) {k b w : Str} {prev : Option UInt16} {e : UInt16}
    (hk : Follows k prev) (hprev : wordAt prev = false) (hb : List.Forall₂ Caseless (str "bearer") b) (he : Blank e)
    (hclean : Clean (Respellable t) (Given p s) (k ++ (b ++ [e]))) (hw : Piece t w) (h : w <:+: k ++ str "Bearer") :
    w <:+: k ∨ Given p s w := by
  rcases List.infix_append_iff.mp h with h | h | ⟨l₁, l₂, rfl, hsuffix, hstart⟩
  · exact Or.inl h
  · have hlong := hw.1.trans h.length_le
    exact absurd hlong (by decide)
  · right
    have hne : l₁ ≠ [] := by
      rintro rfl
      have hlong := hw.1.trans hstart.length_le
      exact absurd hlong (by decide)
    obtain ⟨a, c, rfl⟩ := (List.eq_nil_or_concat' l₁).resolve_left hne
    obtain ⟨k', rfl⟩ := hsuffix
    -- The unit before is in the token and no letter or digit.
    have hlast : prev = some c := by
      rcases hk with hk | hk
      · exact absurd (List.append_eq_nil_iff.mp hk).2 (by simp)
      · rw [← hk, ← List.append_assoc, List.getLast?_concat]
    have hunit : TokenUnit c := hw.solid ht c (by simp)
    have hword : isWord c = false := by
      rw [hlast] at hprev
      exact hprev
    have hmark : c = 0x2D ∨ c = 0x2E := by
      rcases hunit with hunit | hunit
      · left
        simpa [segmentUnit, hword] using hunit
      · exact Or.inr hunit
    have hrespelt : Respelt t (a ++ c :: (b ++ [e])) (a ++ [c] ++ l₂) :=
      ⟨a, c, b, e, l₂.length, rfl, hmark, hb, he, by rw [← List.prefix_iff_eq_take.mp hstart]; simp, hw⟩
    exact hspelled _ _ hrespelt (hclean _ ⟨_, hrespelt⟩ ⟨k', [], by simp⟩)

theorem bearer_rewrite (ht : ∀ c ∈ t, TokenUnit c) (hspelled : Spelled p t s) :
    Rewrite TokenUnit (Piece t) (Given p s) (Clean (Respellable t) (Given p s)) BEARER_RE (fun _ => str "Bearer <redacted>")
      (fun _ => str "Bearer") (fun _ => []) where
  solid _ hw := hw.solid ht
  closed _ _ hin h := h.within hin
  splits _ _ _ _ _ :=
    Splits.of_short (n := 16) (g := str "<redacted") (c := 0x20) (d := 0x3E) (fun _ hw => hw.solid ht) (fun _ hw => hw.1) rfl (by decide)
      (by decide) (by decide)
  suffix x := List.nil_suffix
  word k prev s x rest hk hclean hfirst w hw h := by
    obtain ⟨hprev, b, e, y, hx, hb, he⟩ := bearer_results (first_results hfirst)
    have hx : x = b ++ e :: y := hx
    have hshort : k ++ (b ++ [e]) <:+: k ++ x := ⟨[], y, by rw [hx]; simp⟩
    rcases bearer_word ht hspelled hk hprev hb he (hclean.within hshort) hw h with h | h
    · exact Or.inl (h.trans ⟨[], x, by simp⟩)
    · exact Or.inr h

theorem bearer_not_nil : ¬ List.Forall₂ Caseless (str "bearer") [] := fun h => by
  have hlen := h.length_eq
  exact absurd hlen (by decide)

theorem bearer_break {c : UInt16} (hc : Break c) (rest : Str) (prev : Option UInt16) : BEARER_RE.first prev (c :: rest) = none := by
  rw [Option.eq_none_iff_forall_ne_some]
  intro m hm
  have hstop : ∀ d ∈ (c :: rest).head?, Break d := by
    intro d hd
    rw [List.head?_cons, Option.mem_def, Option.some.injEq] at hd
    rwa [← hd]
  exact bearer_not_nil (bearer_at (b := []) hm (fun _ h => nomatch h) hstop).1

/-- A token whose end is spelled `Bearer` is still one. -/
theorem Shape.respelt {a b : Str} (h : Shape (a ++ b)) (hb : List.Forall₂ Caseless (str "bearer") b) : Shape (a ++ str "Bearer") := by
  have hlen : b.length = 6 := hb.length_eq.symm
  have hletters := bearer_letters hb
  rcases h with ⟨-, hhex⟩ | ⟨a₁, a₂, c, d, htext, ha₁, ha₂, hc, hfirst, -, hd, -⟩
  · -- `r` is no digit.
    exfalso
    obtain ⟨e, he, hcase⟩ : ∃ e ∈ b, Caseless 0x72 e := by
      have hmem : (0x72 : UInt16) ∈ str "bearer" := by decide
      obtain ⟨i, hi, hget⟩ := List.getElem_of_mem hmem
      have hi' : i < b.length := by rwa [← hb.length_eq]
      have hcase := hb.get hi hi'
      rw [List.get_eq_getElem, hget] at hcase
      exact ⟨b[i], List.getElem_mem hi', hcase⟩
    have hdigit := hhex e (List.mem_append_right _ he)
    rcases hcase with rfl | hcase
    · exact absurd hdigit (by decide)
    · have he' : e = 0x52 := by
        have hsub : e = 0x72 - 0x20 := by rw [← hcase]; simp
        rw [hsub]
        decide
      rw [he'] at hdigit
      exact absurd hdigit (by decide)
  · right
    have hnil : d = [] := by
      by_contra hne
      have hbne : b ≠ [] := by
        intro h
        rw [h] at hlen
        cases hlen
      obtain ⟨e, he⟩ := Option.ne_none_iff_exists'.mp (mt List.getLast?_eq_none_iff.mp hne)
      have hlast : (a ++ b).getLast? = some e := by
        rw [htext]
        simp [List.getLast?_append, List.getLast?_cons, he]
      rw [List.getLast?_append_of_ne_nil _ hbne] at hlast
      have hletter := hletters e (List.mem_of_getLast? hlast)
      rw [hd e (List.mem_of_getLast? he)] at hletter
      exact absurd hletter (by decide)
    rw [hnil, List.append_nil] at htext
    have hsplit : a ++ b = (a₁ ++ 0x2E :: (a₂ ++ [0x2E])) ++ c := by rw [htext]; simp
    rcases List.append_eq_append_iff.mp hsplit with ⟨c', hc', hb'⟩ | ⟨c', hc', hcb⟩
    · have hlong := hc.1
      have hlen' := congrArg List.length hb'
      rw [List.length_append] at hlen'
      omega
    · refine ⟨a₁, a₂, c' ++ str "Bearer", [], ?_, ha₁, ha₂, ⟨?_, ?_⟩, hfirst, ?_, (fun _ h => nomatch h), by decide⟩
      · rw [hc']
        simp
      · have hlong := hc.1
        rw [hcb, List.length_append, hlen] at hlong
        have hsix : (str "Bearer").length = 6 := by decide
        rw [List.length_append, hsix]
        exact hlong
      · intro e he
        rcases List.mem_append.mp he with he | he
        · exact hc.2 e (by rw [hcb]; exact List.mem_append_left _ he)
        · have hall : ∀ e ∈ str "Bearer", segmentUnit e = true := List.all_iff_forall_prop.mp (by decide)
          exact hall e he
      · rw [List.getLast?_append_of_ne_nil _ (by decide)]
        decide

/-- A text with `Bearer <redacted>` for the end of a token. -/
theorem bearer_arrive (ht : ∀ c ∈ t, TokenUnit c) (hspelled : Spelled p t s) {n : ℕ} {prev : Option UInt16} {τ v : Str} (hτ : Shape τ)
    (hstop : ∀ c ∈ v.head?, Break c) (hafter : Clean (Piece t) (Given p s) v) (hv : Clean (Respellable t) (Given p s) v)
    (hn : (τ ++ v).length ≤ n) :
    ∃ τ' v', replaceFrom BEARER_RE (fun _ => str "Bearer <redacted>") n prev (τ ++ v) = τ' ++ v' ∧ Shape τ' ∧
      (∀ c ∈ v'.head?, Break c) ∧ Clean (Piece t) (Given p s) v' := by
  have hrewrite := bearer_rewrite ht hspelled
  have hbreak : ∀ c rest prev, Break c → BEARER_RE.first prev (c :: rest) = none := fun c rest prev hc => bearer_break hc rest prev
  by_cases hcopy : ∀ a b, τ = a ++ b → b ≠ [] → BEARER_RE.first (a.getLast?.or prev) (b ++ v) = none
  · obtain ⟨v', hout, hstop', hclean⟩ := hrewrite.arrive_copy hbreak hcopy hstop hafter hv hn
    exact ⟨τ, v', hout, hτ, hstop', hclean⟩
  · simp only [not_forall] at hcopy
    obtain ⟨a, b, rfl, hb, hsome⟩ := hcopy
    obtain ⟨⟨x, rest⟩, hfirst⟩ := Option.ne_none_iff_exists'.mp hsome
    have hunits := hτ.units.2
    have hunitsb : ∀ c ∈ b, TokenUnit c := fun c hc => hunits c (List.mem_append_right _ hc)
    obtain ⟨hspelt, y, hx, hy⟩ := bearer_at hfirst hunitsb hstop
    have hnone : ∀ a₁ a₂, a = a₁ ++ a₂ → a₂ ≠ [] → BEARER_RE.first (a₁.getLast?.or prev) (a₂ ++ (b ++ v)) = none := by
      intro a₁ a₂ ha hne
      rw [Option.eq_none_iff_forall_ne_some]
      intro m hm
      rw [← List.append_assoc] at hm
      have hspelt' := (bearer_at hm (fun c hc => hunits c (by rw [ha]; rcases List.mem_append.mp hc with hc | hc <;> simp [hc])) hstop).1
      have hlen := hspelt'.length_eq.symm.trans hspelt.length_eq
      rw [List.length_append] at hlen
      exact hne (List.eq_nil_of_length_eq_zero (by omega))
    rw [List.append_assoc] at hn
    obtain ⟨m, hm, hle⟩ := replaceFrom_copy (f := fun _ => str "Bearer <redacted>") hnone hn
    obtain ⟨m', hm', -⟩ := replaceFrom_match (f := fun _ => str "Bearer <redacted>") hfirst (by rw [hx]; simp [hb]) hle
    refine ⟨a ++ str "Bearer", str " <redacted>" ++ replaceFrom BEARER_RE (fun _ => str "Bearer <redacted>") m' x.getLast? rest, ?_,
      hτ.respelt hspelt, ?_, ?_⟩
    · rw [List.append_assoc, hm, hm', List.append_assoc, ← List.append_assoc (str "Bearer")]
      rfl
    · intro c hc
      rw [List.head?_append] at hc
      have hspace : c = 0x20 := by
        have hhead : (str " <redacted>").head? = some 0x20 := by decide
        rw [hhead, Option.some_or, Option.mem_def, Option.some.injEq] at hc
        exact hc.symm
      rw [hspace]
      decide
    · have hrest : Clean (Piece t) (Given p s) (replaceFrom BEARER_RE (fun _ => str "Bearer <redacted>") m' x.getLast? rest) :=
        hrewrite.from_clean (hv.within ⟨y, [], by rw [hy]; simp⟩) (hafter.within ⟨y, [], by rw [hy]; simp⟩)
      have hgap : Splits TokenUnit (Piece t) (str " <redacted>") [] [] :=
        Splits.of_short (n := 16) (g := str "<redacted") (c := 0x20) (d := 0x3E) (fun _ hw => hw.solid ht) (fun _ hw => hw.1) rfl (by decide)
          (by decide) (by decide)
      intro w hw h
      rcases hgap.word hw (hw.solid ht) (k := []) (by simpa using h) with h | h
      · have hlong := hw.1.trans h.length_le
        exact absurd hlong (by decide)
      · exact hrest w hw h

theorem bearer_pass (ht : ∀ c ∈ t, TokenUnit c) (hspelled : Spelled p t s) :
    Pass TokenUnit Blank Break (Piece t) (Given p s) (Clean (Respellable t) (Given p s)) BEARER_RE (fun _ => str "Bearer <redacted>")
      (fun _ => str "Bearer") (fun _ => []) Shape Shape where
  toRewrite := bearer_rewrite ht hspelled
  place prev u τ v x rest hended hτ hstop hfirst := by
    obtain ⟨hne, hunits⟩ := hτ.units
    refine place_of_rest (first_append hfirst) hended hne (C := fun c => bearerUnit c = true) (fun c hc => (hunits c hc).bearer) ?_
    right
    right
    obtain ⟨_, -, m₁, hm₁, heq⟩ := first_seq_last hfirst
    obtain ⟨_, -, m₂, hm₂, rfl⟩ := first_seq_last hm₁
    obtain ⟨_, -, m₃, hm₃, rfl⟩ := first_seq_last hm₂
    cases heq
    exact chars_end (m := m₃) hm₃
  covers k prev u τ v v₁ rest hk hclean hended _ _ hfirst _ := by
    refine ⟨List.nil_suffix, fun w hw h => ?_⟩
    obtain ⟨hprev, b, e, y, hx, hb, he⟩ := bearer_results (first_results hfirst)
    have hx : u ++ (τ ++ v₁) = b ++ e :: y := hx
    -- The spelling and its white space come before the token.
    have hin : ∃ back, u = b ++ e :: back := by
      obtain ⟨d, hd, hblank⟩ := hended
      rcases List.append_eq_append_iff.mp hx with ⟨c', hc', -⟩ | ⟨c', hc', hrest⟩
      · have hmem : d ∈ b := by
          rw [hc']
          exact List.mem_append_left _ (List.mem_of_getLast? hd)
        exact absurd (Or.inl hblank) (TokenUnit.of_letter (bearer_letters hb d hmem)).not_break
      · cases c' with
        | nil =>
          rw [List.append_nil] at hc'
          rw [hc'] at hd
          exact absurd (Or.inl hblank) (TokenUnit.of_letter (bearer_letters hb d (List.mem_of_getLast? hd))).not_break
        | cons e' c' =>
          rw [List.cons_append, List.cons.injEq] at hrest
          exact ⟨c', by rw [hc', hrest.1]⟩
    obtain ⟨back, hu⟩ := hin
    have hshort : k ++ (b ++ [e]) <:+: k ++ u := ⟨[], back, by rw [hu]; simp⟩
    rcases bearer_word ht hspelled hk hprev hb he (hclean.within hshort) hw h with h | h
    · exact Or.inl (h.trans ⟨[], u, by simp⟩)
    · exact Or.inr h
  arrive n prev τ v hτ hstop hafter hv _ hn := bearer_arrive ht hspelled hτ hstop hafter hv hn

end Bearer

/-! ### Marks -/

section Marks
variable {t p s : Str}

/-- A mark in place of a token, with the dashes a cut token may leave. -/
def Marked (τ : Str) : Prop := ∃ g d, τ = 0x3C :: (g ++ [0x3E]) ++ d ∧ g.length ≤ 14 ∧ d.length < 16

theorem mark_splits (ht : ∀ c ∈ t, TokenUnit c) {g : Str} (hg : g.length ≤ 14) :
    Splits TokenUnit (Piece t) (0x3C :: (g ++ [0x3E])) [] [] := by
  refine Splits.of_short (n := 16) (c := 0x3C) (g := g) (d := 0x3E) (fun _ hw => hw.solid ht) (fun _ hw => hw.1) (by simp) (by decide)
    (by decide) ?_
  simp only [List.length_cons, List.length_append, List.length_nil]
  omega

theorem mark_rewrite (ht : ∀ c ∈ t, TokenUnit c) (r : Pattern) {g : Str} (hg : g.length ≤ 14) :
    Rewrite TokenUnit (Piece t) (Given p s) (fun _ => True) r (fun _ => 0x3C :: (g ++ [0x3E])) (fun _ => []) (fun _ => []) where
  solid _ hw := hw.solid ht
  closed _ _ _ h := h
  splits _ _ _ _ _ := mark_splits ht hg
  suffix _ := List.nil_suffix
  word k _ _ x _ _ _ _ w _ h := Or.inl (h.trans ⟨[], x, by simp⟩)

/-- With a mark for the token, the whole text is clean. -/
theorem carries_marked (ht : ∀ c ∈ t, TokenUnit c) {x u τ v : Str} (h : Carries Blank Break Marked (Piece t) (Given p s) x u τ v) :
    Clean (Piece t) (Given p s) x := by
  intro w hw hin
  obtain ⟨g, d, rfl, hg, hd⟩ := h.kind
  have hsplit : x = u ++ (0x3C :: (g ++ [0x3E]) ++ (d ++ v)) := by rw [h.text]; simp
  rw [hsplit] at hin
  rcases (mark_splits ht hg).word hw (hw.solid ht) hin with hin | hin
  · exact h.before w hw (by rwa [List.append_nil] at hin)
  · rw [List.nil_append] at hin
    have hshort : ¬ w <:+: d := by
      intro hin
      have hlong := hw.1.trans hin.length_le
      omega
    cases hv : v with
    | nil =>
      rw [hv, List.append_nil] at hin
      exact absurd hin hshort
    | cons c v' =>
      have hbreak : ¬ TokenUnit c := fun hc => hc.not_break (h.stop c (by rw [hv]; rfl))
      rw [hv] at hin
      rcases infix_break (hw.solid ht) hbreak hin with hin | hin
      · exact absurd hin hshort
      · exact h.after w hw (hin.trans ⟨[c], [], by rw [hv]; simp⟩)

theorem mark_pass (ht : ∀ c ∈ t, TokenUnit c) {r : Pattern} {g : Str} (hg : g.length ≤ 14) {kind kind' : Str → Prop}
    (hkind : ∀ τ, kind τ → τ ≠ [] ∧ ∀ c ∈ τ, TokenUnit c) (honly : r.Only fun c => ¬ Blank c)
    (harrive : ∀ n prev τ v, kind τ → (∀ c ∈ v.head?, Break c) → Clean (Piece t) (Given p s) v → (∀ c ∈ prev, Blank c) →
      (τ ++ v).length ≤ n → ∃ τ' v', replaceFrom r (fun _ => 0x3C :: (g ++ [0x3E])) n prev (τ ++ v) = τ' ++ v' ∧ kind' τ' ∧
        (∀ c ∈ v'.head?, Break c) ∧ Clean (Piece t) (Given p s) v') :
    Pass TokenUnit Blank Break (Piece t) (Given p s) (fun _ => True) r (fun _ => 0x3C :: (g ++ [0x3E])) (fun _ => []) (fun _ => [])
      kind kind' where
  toRewrite := mark_rewrite ht r hg
  place prev u τ v x rest hended hτ _ hfirst := by
    obtain ⟨hne, hunits⟩ := hkind τ hτ
    exact place_of_rest (first_append hfirst) hended hne hunits (Or.inl (honly.of_results (first_results hfirst)))
  covers k prev u τ v v₁ rest _ _ _ _ _ _ _ := ⟨List.nil_suffix, fun w _ h => Or.inl (h.trans ⟨[], u, by simp⟩)⟩
  arrive n prev τ v hτ hstop hafter _ hprev hn := harrive n prev τ v hτ hstop hafter hprev hn

theorem not_word_of_blank {prev : Option UInt16} (h : ∀ c ∈ prev, Blank c) : wordAt prev = false := by
  cases prev with
  | none => rfl
  | some c =>
    rw [wordAt, Option.any_some, Bool.eq_false_iff]
    intro hword
    have hc := isWord_toNat hword
    have hb := (h c rfl).toNat
    omega

theorem not_word_of_break {l : Str} (h : ∀ c ∈ l.head?, Break c) : wordAt l.head? = false := by
  cases l with
  | nil => rfl
  | cons c l =>
    rw [List.head?_cons, wordAt, Option.any_some, Bool.eq_false_iff]
    intro hword
    have hc := isWord_toNat hword
    have hb := (h c rfl).toNat
    omega

/-! ### JWT -/

theorem segmentUnit_of_break {c : UInt16} (h : Break c) : segmentUnit c = false := by
  rw [Bool.eq_false_iff]
  intro hseg
  exact TokenUnit.not_break (Or.inl hseg) h

/-- No JWT begins in a text of one segment. -/
theorem jwt_none {b v : Str} (hb : ∀ c ∈ b, segmentUnit c = true) (hstop : ∀ c ∈ v.head?, Break c) (prev : Option UInt16) :
    JWT_RE.first prev (b ++ v) = none := by
  refine first_none fun m hm => ?_
  obtain ⟨k, hk, m₁, hm₁, rfl⟩ := results_seq hm
  obtain ⟨-, rfl⟩ := results_boundary hk
  obtain ⟨x, hx, m₂, hm₂, rfl⟩ := results_seq hm₁
  obtain ⟨happend, hunits, -⟩ := results_chars hx
  obtain ⟨k', hk', -⟩ := results_seq hm₂
  obtain ⟨rest, hrest, -⟩ := results_unit hk'
  have happend : b ++ v = x.1 ++ 0x2E :: rest := by rw [← show x.2 = _ from hrest]; exact happend
  rcases List.append_eq_append_iff.mp happend with ⟨x', hx', hv⟩ | ⟨b', hb', hrest⟩
  · cases x' with
    | nil =>
      have hdot := hstop 0x2E (by rw [hv]; rfl)
      exact absurd hdot (by decide)
    | cons c x' =>
      have hseg := hunits c (by rw [hx']; simp)
      rw [segmentUnit_of_break (hstop c (by rw [hv]; rfl))] at hseg
      cases hseg
  · cases b' with
    | nil =>
      rw [List.nil_append] at hrest
      have hdot := hstop 0x2E (by rw [← hrest]; rfl)
      exact absurd hdot (by decide)
    | cons c b' =>
      rw [List.cons_append, List.cons.injEq] at hrest
      have hseg := hb c (by rw [hb']; simp)
      rw [← hrest.1] at hseg
      exact absurd hseg (by decide)

theorem first_unit (c : UInt16) (prev : Option UInt16) (rest : Str) : (unit c).first prev (c :: rest) = some ([c], rest) := by
  unfold unit Pattern.first
  simp [Pattern.results]

/-- The first match at a token takes the three segments. -/
theorem jwt_first {a b c d v : Str} (ha : Segment a) (hb : Segment b) (hc : Segment c) (hfirst : wordAt a.head? = true)
    (hlast : wordAt c.getLast? = true) (hd : ∀ e ∈ d, e = 0x2D) (hstop : ∀ e ∈ v.head?, Break e) {prev : Option UInt16}
    (hprev : wordAt prev = false) :
    JWT_RE.first prev (a ++ 0x2E :: (b ++ 0x2E :: (c ++ (d ++ v)))) = some (a ++ 0x2E :: (b ++ 0x2E :: c), d ++ v) := by
  have hdot : ∀ l : Str, ∀ e ∈ ((0x2E : UInt16) :: l).head?, segmentUnit e = false := by
    intro l e he
    rw [List.head?_cons, Option.mem_def, Option.some.injEq] at he
    rw [← he]
    decide
  have hane : a ≠ [] := by
    rintro rfl
    cases hfirst
  have hcne : c ≠ [] := by
    rintro rfl
    cases hlast
  -- After the dashes there is no boundary.
  have hdash : ∀ l : Str, (∀ e ∈ l, e = 0x2D) → wordAt (l ++ v).head? = false := by
    intro l hl
    cases l with
    | nil => exact not_word_of_break hstop
    | cons e l =>
      rw [hl e (List.mem_cons_self ..)]
      rfl
  have hend : ∀ prev, (Pattern.seq segment .boundary).first prev (c ++ (d ++ v)) = some (c ++ [], d ++ v) := by
    intro prev
    refine first_chars_seq hc.1 hc.2 ?_ ?_
    · refine first_boundary ?_
      obtain ⟨e, he⟩ := Option.ne_none_iff_exists'.mp (mt List.getLast?_eq_none_iff.mp hcne)
      rw [he] at hlast
      rw [he, Option.some_or, hlast, hdash d hd]
      decide
    · intro z z' hz hsplit hseg
      have hzd : ∃ d', d = z ++ d' ∧ z' = d' ++ v := by
        rcases List.append_eq_append_iff.mp hsplit with ⟨v', hv', hrest⟩ | ⟨d', hd', hrest⟩
        · cases v' with
          | nil => exact ⟨[], by rw [hv']; simp, hrest.symm⟩
          | cons e v' =>
            have he := hseg e (by rw [hv']; simp)
            rw [segmentUnit_of_break (hstop e (by rw [hrest]; rfl))] at he
            cases he
        · exact ⟨d', hd', hrest⟩
      obtain ⟨d', rfl, rfl⟩ := hzd
      have hzlast : wordAt (((c ++ z).getLast?).or prev) = false := by
        obtain ⟨e, he⟩ := Option.ne_none_iff_exists'.mp (mt List.getLast?_eq_none_iff.mp hz)
        rw [List.getLast?_append_of_ne_nil _ hz, he, hd e (List.mem_append_left _ (List.mem_of_getLast? he))]
        rfl
      simp only [Pattern.results]
      rw [hzlast, hdash d' fun e he => hd e (List.mem_append_right _ he), if_pos rfl]
  rw [List.append_nil] at hend
  have hstart : wordAt prev ≠ wordAt (a ++ 0x2E :: (b ++ 0x2E :: (c ++ (d ++ v)))).head? := by
    rw [List.head?_append_of_ne_nil _ hane, hfirst, hprev]
    decide
  have hsecond := fun prev => first_seq (first_chars_stop hb.1 hb.2 (hdot (c ++ (d ++ v))) prev) (first_seq (first_unit _ _ _) (hend _))
  have hall := first_seq (first_boundary hstart)
    (first_seq (first_chars_stop ha.1 ha.2 (hdot (b ++ 0x2E :: (c ++ (d ++ v)))) _) (first_seq (first_unit _ _ _) (hsecond _)))
  have htext : ([] : Str) ++ (a ++ ([0x2E] ++ (b ++ ([0x2E] ++ c)))) = a ++ 0x2E :: (b ++ 0x2E :: c) := by simp
  rw [← htext]
  exact hall

theorem jwt_only : JWT_RE.Only fun c => ¬ Blank c := by
  have hseg : ∀ c, segmentUnit c = true → ¬ Blank c := fun c hc hb => TokenUnit.not_break (Or.inl hc) (Or.inl hb)
  have hdot : ∀ c, decide (c = 0x2E) = true → ¬ Blank c := by
    intro c hc
    rw [of_decide_eq_true hc]
    decide
  exact ⟨trivial, hseg, hdot, hseg, hdot, hseg, trivial⟩

theorem jwt_break (c : UInt16) (rest : Str) (prev : Option UInt16) (hc : Break c) : JWT_RE.first prev (c :: rest) = none :=
  jwt_none (b := []) (fun _ h => nomatch h) (fun d hd => by
    rw [List.head?_cons, Option.mem_def, Option.some.injEq] at hd
    rwa [← hd]) prev

theorem jwt_pass (ht : ∀ c ∈ t, TokenUnit c) :
    Pass TokenUnit Blank Break (Piece t) (Given p s) (fun _ => True) JWT_RE (fun _ => str "<jwt>") (fun _ => []) (fun _ => [])
      JwtToken Marked := by
  refine mark_pass ht (g := str "jwt") (by decide) (fun _ h => h.units) jwt_only ?_
  rintro n prev τ v ⟨a, b, c, d, rfl, ha, hb, hc, hfirst, hlast, hd, hshort⟩ hstop hafter hprev hn
  have htext : a ++ 0x2E :: (b ++ 0x2E :: (c ++ d)) ++ v = a ++ 0x2E :: (b ++ 0x2E :: (c ++ (d ++ v))) := by simp
  rw [htext] at hn ⊢
  have hmatch := jwt_first ha hb hc hfirst hlast hd hstop (not_word_of_blank hprev)
  obtain ⟨m, hm, hle⟩ := replaceFrom_match (f := fun _ => str "<jwt>") hmatch (by simp) hn
  have hnone : ∀ prev d₁ d₂, d = d₁ ++ d₂ → d₂ ≠ [] → JWT_RE.first (d₁.getLast?.or prev) (d₂ ++ v) = none := by
    intro prev d₁ d₂ hsplit _
    refine jwt_none ?_ hstop _
    intro e he
    rw [hd e (by rw [hsplit]; exact List.mem_append_right _ he)]
    decide
  obtain ⟨v', hv', hstop', hclean⟩ := (mark_rewrite ht JWT_RE (g := str "jwt") (by decide)).arrive_copy (fun c rest prev hc => jwt_break c rest prev hc)
    (hnone _) hstop hafter trivial hle
  refine ⟨str "<jwt>" ++ d, v', ?_, ⟨str "jwt", d, rfl, by decide, hshort⟩, hstop', hclean⟩
  rw [List.append_assoc, ← hv']
  exact hm

theorem jwt_pass_hex (ht : ∀ c ∈ t, TokenUnit c) :
    Pass TokenUnit Blank Break (Piece t) (Given p s) (fun _ => True) JWT_RE (fun _ => str "<jwt>") (fun _ => []) (fun _ => [])
      HexToken HexToken := by
  refine mark_pass ht (g := str "jwt") (by decide) (fun _ h => h.units) jwt_only ?_
  intro n prev τ v hτ hstop hafter _ hn
  have hseg : ∀ c ∈ τ, segmentUnit c = true := fun c hc => by simp [segmentUnit, isHex_isWord (hτ.2 c hc)]
  obtain ⟨v', hout, hstop', hclean⟩ := (mark_rewrite ht JWT_RE (g := str "jwt") (by decide)).arrive_copy (fun c rest prev hc => jwt_break c rest prev hc)
    (fun a b hab _ => jwt_none (fun c hc => hseg c (by rw [hab]; exact List.mem_append_right _ hc)) hstop _) hstop hafter trivial hn
  exact ⟨τ, v', hout, hτ, hstop', hclean⟩

/-! ### Hex tokens -/

theorem hex_only : HEX_TOKEN_RE.Only fun c => ¬ Blank c := by
  refine ⟨trivial, ?_, trivial⟩
  intro c hc hb
  exact (TokenUnit.not_break (Or.inl (by simp [segmentUnit, isHex_isWord hc]))) (Or.inl hb)

theorem hex_break (c : UInt16) (rest : Str) (prev : Option UInt16) (hc : Break c) : HEX_TOKEN_RE.first prev (c :: rest) = none := by
  refine first_none fun m hm => ?_
  obtain ⟨k, hk, m₁, hm₁, rfl⟩ := results_seq hm
  obtain ⟨-, rfl⟩ := results_boundary hk
  obtain ⟨x, hx, -⟩ := results_seq hm₁
  obtain ⟨happend, hunits, hlong⟩ := results_chars hx
  obtain ⟨d, x', hd⟩ := List.exists_cons_of_ne_nil (l := x.1) (by intro hnil; rw [hnil] at hlong; exact absurd hlong (by decide))
  have happend : c :: rest = x.1 ++ x.2 := happend
  rw [hd, List.cons_append, List.cons.injEq] at happend
  have hhex := hunits d (by rw [hd]; exact List.mem_cons_self ..)
  rw [← happend.1] at hhex
  exact TokenUnit.not_break (Or.inl (by simp [segmentUnit, isHex_isWord hhex])) hc

theorem hex_pass (ht : ∀ c ∈ t, TokenUnit c) :
    Pass TokenUnit Blank Break (Piece t) (Given p s) (fun _ => True) HEX_TOKEN_RE (fun _ => str "<token>") (fun _ => []) (fun _ => [])
      HexToken Marked := by
  refine mark_pass ht (g := str "token") (by decide) (fun _ h => h.units) hex_only ?_
  intro n prev τ v hτ hstop hafter hprev hn
  have hne := hτ.units.1
  obtain ⟨c, τ', hc⟩ := List.exists_cons_of_ne_nil hne
  obtain ⟨e, he⟩ := Option.ne_none_iff_exists'.mp (mt List.getLast?_eq_none_iff.mp hne)
  have hend : ∀ d ∈ v.head?, isHex d = false := by
    intro d hd
    rw [Bool.eq_false_iff]
    intro hhex
    exact TokenUnit.not_break (Or.inl (by simp [segmentUnit, isHex_isWord hhex])) (hstop d hd)
  have hstart : wordAt prev ≠ wordAt (τ ++ v).head? := by
    have hword : wordAt (τ ++ v).head? = true := by
      rw [hc]
      exact isHex_isWord (hτ.2 c (by rw [hc]; exact List.mem_cons_self ..))
    rw [hword, not_word_of_blank hprev]
    decide
  have hlast : wordAt (τ.getLast?.or prev) ≠ wordAt v.head? := by
    have hword : wordAt (τ.getLast?.or prev) = true := by
      rw [he]
      exact isHex_isWord (hτ.2 e (List.mem_of_getLast? he))
    rw [hword, not_word_of_break hstop]
    decide
  have hmatch : HEX_TOKEN_RE.first prev (τ ++ v) = some ([] ++ (τ ++ []), v) :=
    first_seq (first_boundary hstart) (first_seq (first_chars_stop hτ.1 hτ.2 hend _) (first_boundary hlast))
  rw [List.append_nil, List.nil_append] at hmatch
  obtain ⟨m, hm, -⟩ := replaceFrom_match (f := fun _ => str "<token>") hmatch hne hn
  have hrewrite := mark_rewrite (t := t) (p := p) (s := s) ht HEX_TOKEN_RE (g := str "token") (by decide)
  refine ⟨str "<token>", replaceFrom HEX_TOKEN_RE (fun _ => str "<token>") m τ.getLast? v, hm, ⟨str "token", [], rfl, by decide, by decide⟩,
    replaceFrom_stop (fun c rest prev hc => hex_break c rest prev hc) hstop _ _, hrewrite.from_clean trivial hafter⟩

/-! ### Values of secret keys -/

theorem caseless_eq {d c : UInt16} (h : Caseless d c) : c = d ∨ c = d - 0x20 := by
  rcases h with h | h
  · exact Or.inl h
  · right
    rw [← h]
    simp

/-- What the names of secrets begin with. -/
def NameStart (s : Str) : Prop :=
  ∃ c s', s = c :: s' ∧ isLetter c = true ∧ (isHex c = true → ∃ d s'', s' = d :: s'' ∧ isLetter d = true ∧ isHex d = false)

theorem caseless_start {word : Str} {prev : Option UInt16} {s : Str} {m : Str × Str} (h : m ∈ (literal letter word).results prev s)
    (hword : ∀ c ∈ word, 0x61 ≤ c.toNat ∧ c.toNat ≤ 0x7A)
    (hstart : ∃ d d' l, word = d :: d' :: l ∧ (isHex d = false ∧ isHex (d - 0x20) = false ∨ isHex d' = false ∧ isHex (d' - 0x20) = false)) :
    NameStart s := by
  have hspelt := results_letter h
  have hletters := caseless_letters hword hspelt
  have happend := results_append _ h
  obtain ⟨d, d', l, rfl, hdigit⟩ := hstart
  have hnot : ∀ {d c : UInt16}, Caseless d c → isHex d = false ∧ isHex (d - 0x20) = false → isHex c = false := by
    intro d c hc hd
    rcases caseless_eq hc with rfl | rfl
    · exact hd.1
    · exact hd.2
  cases hm : m.1 with
  | nil =>
    rw [hm] at hspelt
    cases hspelt
  | cons c x =>
    rw [hm] at hspelt hletters happend
    obtain ⟨hc, hx⟩ := List.forall₂_cons.mp hspelt
    cases x with
    | nil => cases hx
    | cons c' x =>
      obtain ⟨hc', -⟩ := List.forall₂_cons.mp hx
      refine ⟨c, c' :: x ++ m.2, by rw [← happend]; rfl, hletters c (by simp), fun hhex => ⟨c', x ++ m.2, rfl, hletters c' (by simp), ?_⟩⟩
      rcases hdigit with hdigit | hdigit
      · rw [hnot hc hdigit] at hhex
        cases hhex
      · exact hnot hc' hdigit

theorem caseless_units {word : Str} {prev : Option UInt16} {s : Str} {m : Str × Str} (h : m ∈ (literal letter word).results prev s)
    (hword : ∀ c ∈ word, 0x61 ≤ c.toNat ∧ c.toNat ≤ 0x7A) : ∀ c ∈ m.1, segmentUnit c = true := by
  intro c hc
  simp [segmentUnit, isLetter_isWord (caseless_letters hword (results_letter h) c hc)]

theorem secretName_results {prev : Option UInt16} {s : Str} {m : Str × Str} (h : m ∈ secretName.results prev s) :
    NameStart s ∧ ∀ c ∈ m.1, segmentUnit c = true := by
  have hword : ∀ word : Str, (word.all fun c => decide (0x61 ≤ c.toNat ∧ c.toNat ≤ 0x7A)) = true →
      (∃ d d' l, word = d :: d' :: l ∧ isHex d = false ∧ isHex (d - 0x20) = false) →
      m ∈ (literal letter word).results prev s → NameStart s ∧ ∀ c ∈ m.1, segmentUnit c = true := by
    intro word hall ⟨d, d', l, heq, hd⟩ hm
    have hlow := List.all_iff_forall_prop.mp hall
    exact ⟨caseless_start hm hlow ⟨d, d', l, heq, Or.inl hd⟩, caseless_units hm hlow⟩
  rcases results_alt h with h | h
  · have hapi : ∀ c ∈ str "api", 0x61 ≤ c.toNat ∧ c.toNat ≤ 0x7A := List.all_iff_forall_prop.mp (by decide)
    have hkey : ∀ c ∈ str "key", 0x61 ≤ c.toNat ∧ c.toNat ≤ 0x7A := List.all_iff_forall_prop.mp (by decide)
    obtain ⟨k, hk, m₁, hm₁, rfl⟩ := results_seq h
    obtain ⟨k', hk', m₂, hm₂, rfl⟩ := results_seq hm₁
    have hmark : ∀ c ∈ k'.1, segmentUnit c = true := by
      have honly : (Pattern.opt (anyOf [0x5F, 0x2D])).Only fun c => segmentUnit c = true := by
        have hall : ∀ c ∈ ([0x5F, 0x2D] : Str), segmentUnit c = true := List.all_iff_forall_prop.mp (by decide)
        exact fun c hc => hall c (of_decide_eq_true hc)
      exact honly.of_results hk'
    refine ⟨caseless_start hk hapi ⟨0x61, 0x70, [0x69], rfl, Or.inr ⟨by decide, by decide⟩⟩, ?_⟩
    intro c hc
    simp only [List.mem_append] at hc
    rcases hc with hc | hc | hc
    · exact caseless_units hk hapi c hc
    · exact hmark c hc
    · exact caseless_units hm₂ hkey c hc
  rcases results_alt h with h | h
  · exact hword (str "token") (by decide) ⟨0x74, 0x6F, str "ken", rfl, by decide, by decide⟩ h
  rcases results_alt h with h | h
  · exact hword (str "password") (by decide) ⟨0x70, 0x61, str "ssword", rfl, by decide, by decide⟩ h
  rcases results_alt h with h | h
  · exact hword (str "secret") (by decide) ⟨0x73, 0x65, str "cret", rfl, by decide, by decide⟩ h
  rcases results_alt h with h | h
  · exact hword (str "passwd") (by decide) ⟨0x70, 0x61, str "sswd", rfl, by decide, by decide⟩ h
  · exact hword (str "pwd") (by decide) ⟨0x70, 0x77, str "d", rfl, by decide, by decide⟩ h

theorem kv_results {prev : Option UInt16} {s : Str} {m : Str × Str} (h : m ∈ KV_SECRET_RE.results prev s) :
    NameStart s ∧ ∃ name blanks c y, m.1 = name ++ (blanks ++ c :: y) ∧ (∀ e ∈ name, segmentUnit e = true) ∧ (∀ e ∈ blanks, Blank e) ∧
      (c = 0x3A ∨ c = 0x3D) := by
  obtain ⟨k, hk, m₁, hm₁, rfl⟩ := results_seq h
  obtain ⟨-, rfl⟩ := results_boundary hk
  obtain ⟨name, hname, m₂, hm₂, rfl⟩ := results_seq hm₁
  obtain ⟨blanks, hblanks, m₃, hm₃, rfl⟩ := results_seq hm₂
  obtain ⟨sign, hsign, m₄, hm₄, rfl⟩ := results_seq hm₃
  obtain ⟨hstart, hunits⟩ := secretName_results hname
  obtain ⟨-, hblank, -⟩ := results_chars hblanks
  obtain ⟨c, rest, -, hc, rfl⟩ := results_one hsign
  refine ⟨hstart, name.1, blanks.1, c, m₄.1, rfl, hunits, hblank, ?_⟩
  have hmem : c ∈ ([0x3A, 0x3D] : Str) := of_decide_eq_true hc
  simpa using hmem

theorem kv_rewrite (ht : ∀ c ∈ t, TokenUnit c) :
    Rewrite TokenUnit (Piece t) (Given p s) (fun _ => True) KV_SECRET_RE (fun m => secretKey m ++ str "=<redacted>") secretKey
      (fun _ => []) where
  solid _ hw := hw.solid ht
  closed _ _ _ h := h
  splits _ _ x _ _ :=
    Splits.of_short (n := 16) (c := 0x3D) (g := str "<redacted") (d := 0x3E) (fun _ hw => hw.solid ht) (fun _ hw => hw.1)
      (List.append_nil _).symm (by decide) (by decide) (by decide)
  suffix _ := List.nil_suffix
  word k _ _ x _ _ _ _ w _ h := by
    obtain ⟨back, hback⟩ : secretKey x <+: x := List.takeWhile_prefix _
    exact Or.inl (h.trans ⟨[], back, by rw [List.nil_append, List.append_assoc, hback]⟩)

/-- A name that begins at digits would go on with one, or with a break. -/
theorem kv_none {b v : Str} (hb : ∀ c ∈ b, isHex c = true) (hstop : ∀ c ∈ v.head?, Break c) (prev : Option UInt16) :
    KV_SECRET_RE.first prev (b ++ v) = none := by
  refine first_none fun m hm => ?_
  obtain ⟨⟨c, s', hs, hletter, hnext⟩, -⟩ := kv_results hm
  have hbreak : ∀ d, isLetter d = true → ¬ Break d := fun d hd => (TokenUnit.of_letter hd).not_break
  cases b with
  | nil => exact hbreak c hletter (hstop c (by rw [List.nil_append] at hs; rw [hs]; rfl))
  | cons e b =>
    rw [List.cons_append, List.cons.injEq] at hs
    obtain ⟨rfl, hs⟩ := hs
    obtain ⟨d, s'', hd, hletter', hnot⟩ := hnext (hb e (List.mem_cons_self ..))
    rw [hd] at hs
    cases b with
    | nil => exact hbreak d hletter' (hstop d (by rw [List.nil_append] at hs; rw [hs]; rfl))
    | cons e' b =>
      rw [List.cons_append, List.cons.injEq] at hs
      have hhex := hb e' (by simp)
      rw [hs.1, hnot] at hhex
      cases hhex

/-- Where a match ends: at a quote, or before what a value cannot have. -/
theorem kv_end {prev : Option UInt16} {s x rest : Str} (h : KV_SECRET_RE.first prev s = some (x, rest)) :
    (∀ c ∈ x.getLast?, ¬ Blank c ∧ ¬ valueUnit c = true) ∨ ∀ c ∈ rest.head?, ¬ valueUnit c = true := by
  obtain ⟨_, -, m₁, hm₁, heq⟩ := first_seq_last h
  obtain ⟨_, -, m₂, hm₂, rfl⟩ := first_seq_last hm₁
  obtain ⟨_, -, m₃, hm₃, rfl⟩ := first_seq_last hm₂
  obtain ⟨_, -, m₄, hm₄, rfl⟩ := first_seq_last hm₃
  obtain ⟨_, -, m₅, hm₅, rfl⟩ := first_seq_last hm₄
  obtain ⟨_, -, m₆, hm₆, rfl⟩ := first_seq_last hm₅
  have htotal : ∀ prev s, quote.results prev s ≠ [] := by
    intro prev s
    unfold quote
    simp only [Pattern.results]
    simp
  obtain ⟨value, last, hvalue, hlast, rfl⟩ := first_seq_total htotal hm₆
  cases heq
  have hresults := first_results hlast
  unfold quote at hresults
  simp only [Pattern.results, List.mem_append, List.mem_singleton] at hresults
  rcases hresults with hquote | hnone
  · left
    obtain ⟨c, rest, -, hc, hlast⟩ := results_one hquote
    have hmem : c ∈ ([0x22, 0x27] : Str) := of_decide_eq_true hc
    have hall : ∀ c ∈ ([0x22, 0x27] : Str), ¬ Blank c ∧ ¬ valueUnit c = true := List.all_iff_forall_prop.mp (by decide)
    intro d hd
    have hdc : d = c := by
      rw [hlast] at hd
      simpa [List.getLast?_append] using hd.symm
    rw [hdc]
    exact hall c hmem
  · right
    have hrest := chars_end (m := value) hvalue
    rw [hnone]
    exact hrest

/-- The sign after the name comes before a token that white space comes before. -/
theorem sign_before {u τ v₁ name blanks y : Str} {c : UInt16} (hx : u ++ (τ ++ v₁) = name ++ (blanks ++ c :: y)) (hended : Ended Blank u)
    (hname : ∀ e ∈ name, segmentUnit e = true) (hblanks : ∀ e ∈ blanks, Blank e) (hc : c = 0x3A ∨ c = 0x3D) (hne : τ ≠ [])
    (hτ : ∀ e ∈ τ, TokenUnit e) : c ∈ u := by
  obtain ⟨d, hd, hblank⟩ := hended
  obtain ⟨e, τ', rfl⟩ := List.exists_cons_of_ne_nil hne
  have hunit := hτ e (List.mem_cons_self ..)
  have hother : e ≠ c ∧ ¬ Blank e := by
    refine ⟨?_, fun hb => hunit.not_break (Or.inl hb)⟩
    rintro rfl
    rcases hc with rfl | rfl
    · exact absurd hunit (by decide)
    · exact absurd hunit (by decide)
  have hdname : d ∉ name := fun hmem => TokenUnit.not_break (Or.inl (hname d hmem)) (Or.inl hblank)
  rcases List.append_eq_append_iff.mp hx with ⟨name', hname', -⟩ | ⟨u', hu', hrest⟩
  · exact absurd (by rw [hname']; exact List.mem_append_left _ (List.mem_of_getLast? hd)) hdname
  · rcases List.append_eq_append_iff.mp hrest with ⟨u'', hu'', hsign⟩ | ⟨blanks', hblanks', hsign⟩
    · cases u'' with
      | nil =>
        rw [List.nil_append, List.cons_append, List.cons.injEq] at hsign
        exact absurd hsign.1.symm hother.1
      | cons c' u'' =>
        rw [List.cons_append, List.cons.injEq] at hsign
        rw [hu', hu'', hsign.1]
        simp
    · cases blanks' with
      | nil =>
        rw [List.nil_append, List.cons_append, List.cons.injEq] at hsign
        exact absurd hsign.1 hother.1
      | cons c' blanks' =>
        rw [List.cons_append, List.cons_append, List.cons.injEq] at hsign
        exact absurd (hblanks e (by rw [hblanks', hsign.1]; simp)) hother.2

/-- The key ends before the first sign. -/
theorem secretKey_before {u : Str} {c : UInt16} (hmem : c ∈ u) (hc : c = 0x3A ∨ c = 0x3D) (z : Str) : secretKey (u ++ z) <+: u := by
  have hlt : (u.takeWhile fun c => decide (c ≠ 0x3A ∧ c ≠ 0x3D)).length ≠ u.length := by
    intro hlen
    have hall := (List.takeWhile_prefix (l := u) fun c => decide (c ≠ 0x3A ∧ c ≠ 0x3D)).eq_of_length hlen
    have hnot := List.mem_takeWhile_imp (p := fun c : UInt16 => decide (c ≠ 0x3A ∧ c ≠ 0x3D)) (by rw [hall]; exact hmem)
    have hnot := of_decide_eq_true hnot
    rcases hc with rfl | rfl
    · exact hnot.1 rfl
    · exact hnot.2 rfl
  rw [secretKey, List.takeWhile_append, if_neg hlt]
  exact List.takeWhile_prefix _

theorem kv_pass (ht : ∀ c ∈ t, TokenUnit c) :
    Pass TokenUnit Blank Break (Piece t) (Given p s) (fun _ => True) KV_SECRET_RE (fun m => secretKey m ++ str "=<redacted>") secretKey
      (fun _ => []) HexToken HexToken where
  toRewrite := kv_rewrite ht
  place prev u τ v x rest hended hτ _ hfirst := by
    obtain ⟨hne, hunits⟩ := hτ.units
    refine place_of_rest (first_append hfirst) hended hne (C := fun c => valueUnit c = true) (fun c hc => (hunits c hc).value) ?_
    exact Or.inr (kv_end hfirst)
  covers k prev u τ v v₁ rest _ _ hended hτ _ hfirst _ := by
    refine ⟨List.nil_suffix, fun w hw h => Or.inl (h.trans ?_)⟩
    obtain ⟨-, name, blanks, c, y, hx, hname, hblanks, hc⟩ := kv_results (first_results hfirst)
    obtain ⟨back, hback⟩ := secretKey_before (sign_before hx hended hname hblanks hc hτ.units.1 hτ.units.2) hc (τ ++ v₁)
    exact ⟨[], back, by rw [List.nil_append, List.append_assoc, hback]⟩
  arrive n prev τ v hτ hstop hafter _ _ hn := by
    have hbreak : ∀ c rest prev, Break c → KV_SECRET_RE.first prev (c :: rest) = none := by
      intro c rest prev hc
      refine kv_none (b := []) (fun _ h => nomatch h) ?_ prev
      intro d hd
      rw [List.head?_cons, Option.mem_def, Option.some.injEq] at hd
      rwa [← hd]
    have hcopy : ∀ a b, τ = a ++ b → b ≠ [] → KV_SECRET_RE.first (a.getLast?.or prev) (b ++ v) = none := fun a b hab _ =>
      kv_none (fun c hc => hτ.2 c (by rw [hab]; exact List.mem_append_right _ hc)) hstop _
    obtain ⟨v', hout, hstop', hclean⟩ := (kv_rewrite ht).arrive_copy hbreak hcopy hstop hafter trivial hn
    exact ⟨τ, v', hout, hτ, hstop', hclean⟩

end Marks

end AgentWorkflow.Desktop.Sanitize
